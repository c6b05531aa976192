import TtWind.Laws.Mmio

/-!
# The discipline of register accesses

Every call of the driver keeps the protocol of `TtWind.Laws.Mmio`: the requests, the
power callbacks, and the two hardware callbacks that map and unmap the blocks. So every
register access of every run is disciplined: it is through a pointer that is mapped at that moment,
on a device that is not restricted, but for the readbacks of POST_RESET.

The protocol says through which block's pointer an access goes, not at which offset: how far the TLB
registers reach is in `TtWind.Laws.Extent`. What the device does with an access is not modelled; a
read answers whatever the environment picks.
-/

set_option autoImplicit false

namespace TtWind

open TtWind.Effect TtWind.Effect.Prog TtWind.Effect.Protocol

/-! ## The ioctls -/

section Ioctls

variable {card : Card}

/-- The ioctls on mappings and windows go nowhere near a register. -/
theorem handleFoot_off {held restricts : Prop} (hn : ¬ held) {fileObject : Option FileObject}
    {o : Op} (h : handleFoot fileObject o) : offDevice held restricts o := by
  cases o with
  | acquire | release => exact .inr hn
  | store | setBusData | mmioRead | mmioWrite | mapIoSpace | unmapIoSpace => exact (h : False).elim
  | _ => trivial

/-- The status query keeps the protocol under ArcLock. -/
theorem arcStatusLocked_mmio :
    mmio.Keeps driverMachine .ioctl (Holding True False .ioctl card) arcStatusLocked := by
  refine checked_mmio ioctl_works (arcStatusLocked_within (mailScope_workFoot card False)) fun c hc => ?_
  exact Within.ite (fun _ => trivial) fun hn => absurd hc hn

theorem sysmemStatusLocked_mmio :
    mmio.Keeps driverMachine .ioctl (Holding True False .ioctl card) sysmemStatusLocked := by
  have hout : ∀ off len v, Op.plain (.outField off len v) := fun _ _ _ => trivial
  refine checked_mmio ioctl_works (sysmemStatusLocked_within trivial (readsIatu_workFoot card False)
    fun _ _ _ => trivial) fun c hc => ?_
  -- restricted: everything but the live readback
  refine ⟨trivial, fun _ _ => ⟨trivial, fun _ _ => ⟨trivial, fun _ _ => ⟨trivial, fun _ _ => ?_⟩⟩⟩⟩
  refine (outTiers_within hout c _ _).bind fun _ => ?_
  refine ⟨trivial, fun _ _ => ⟨trivial, fun _ _ => ⟨trivial, fun _ _ => ?_⟩⟩⟩
  refine (outProbe_within hout _ _).bind fun _ => (outProbe_within hout _ _).bind fun _ => ?_
  refine (outProbe_within hout _ _).bind fun _ => Within.ite (fun hl => ?_) fun _ => trivial
  rw [show DeviceContext.needsHwInit c = true from hc] at hl
  exact absurd hl (by simp)

/-- RESET_DEVICE keeps the protocol: it goes over the bus interface, and restricts the device before it triggers. -/
theorem ioctlResetDevice_mmio (fileObject : Option FileObject) :
    mmio.Keeps driverMachine .ioctl (Holding False False .ioctl card)
      (ioctlResetDevice fileObject) := by
  have hbusy : mmio.Keeps driverMachine .ioctl (Holding False False .ioctl card)
      (locked .anyMapping) :=
    off_keeps False ioctl_works False.elim False.elim ((within_perform _).mpr trivial)
  have harm : mmio.Keeps driverMachine .ioctl (Holding True False .ioctl card)
      (armReset fileObject) :=
    off_keeps True ioctl_works False.elim (fun _ => ⟨trivial, rfl, id⟩)
      (armReset_only configScope_offDevice trivial (fun _ => ⟨trivial, trivial⟩) fileObject)
  refine (arcRegions_mmio ioctl_works).ioctlResetDevice ?_ (acquire_mmio ioctl_works) harm
  refine Triple.weaken hbusy (fun _ h => h) fun busy w h => ?_
  cases busy <;> exact h

/-- CONFIGURE_TLB writes its registers with no lock that keeps a reset out: the dispatcher
has found none in flight, and no other thread begins one. -/
theorem configureTlb_mmio (fileObject : Option FileObject) :
    mmio.Triple driverMachine .ioctl (Holding False True .ioctl card) (ioctlConfigureTlb fileObject)
      fun _ => Holding False False .ioctl card := by
  have hstable : mmio.Stable .ioctl (Holding False True .ioctl card) :=
    stable_holding ioctl_works fun _ => .inr rfl
  have hplain : ∀ {α : Type} {p : Drv α}, p.Only Op.plain →
      mmio.Keeps driverMachine .ioctl (Holding False True .ioctl card) p :=
    fun hp => plain_keeps ioctl_works (fun _ => .inr rfl) hp
  have hdone : ∀ s, mmio.Triple driverMachine .ioctl (Holding False True .ioctl card)
      (Pure.pure s : Drv NtStatus) fun _ => Holding False False .ioctl card :=
    fun s => Triple.pure hstable fun _ h => ⟨h.onCard, False.elim, False.elim⟩
  have hvis : ∀ {α β : Type} {p : Drv α} {k : α → Drv β} {Q : β → World → Prop}, p.Only Op.plain →
      (∀ x, mmio.Triple driverMachine .ioctl (Holding False True .ioctl card) (k x) Q) →
      mmio.Triple driverMachine .ioctl (Holding False True .ioctl card) (p >>= k) Q :=
    fun hp hk => Triple.bind mmio_steady (hplain hp) hk
  have hop : ∀ {o : Op}, o.plain → (op o).Only Op.plain := fun ho => (within_perform _).mpr ho
  cases fileObject with
  | none => exact hdone _
  | some fo =>
    refine hvis (hop trivial) fun _ => Triple.ite (fun _ => hdone _) fun _ => ?_
    refine hvis (p := inU32 4) ⟨trivial, fun _ _ => trivial⟩ fun _ => ?_
    refine hvis (hop trivial) fun _ => hvis (hop trivial) fun _ => ?_
    refine Triple.ite (fun _ => hdone _) fun _ => ?_
    refine hvis (inTlbConfig_only (fun _ _ => trivial) 8) fun cfg => ?_
    refine Triple.ite (fun _ => hdone _) fun _ => Triple.ite (fun _ => hdone _) fun _ => ?_
    refine hvis (p := inU32 0) ⟨trivial, fun _ _ => trivial⟩ fun tlbId => ?_
    refine Triple.bind (p := acquire .state) mmio_steady (Q := fun _ => Configuring card) ?_ fun _ => ?_
    · refine Triple.vis (I := fun _ => Configuring card) hstable
        (fun w _ _ => ⟨disciplined_of_no_register rfl, trivial⟩) ?_ fun _ => Keeps.pure stable_configuring
      intro w L e x w' hw hl hinv _ he
      have he : World.exec .ioctl (.acquire .state) e w = some (x, w') := he
      obtain ⟨hinv', hguar, hw', -⟩ := holding_step ioctl_works hl he hinv hw
        (.of_idle rfl trivial (.inr id))
      refine ⟨hinv', hguar, hw', ?_⟩
      obtain ⟨w₁, hs, rfl⟩ := World.exec_step he
      simp only [World.step, Option.ite_none_right_eq_some, Option.some.injEq, Prod.mk.injEq] at hs
      obtain ⟨-, -, rfl⟩ := hs
      rfl
    · refine Triple.bind (p := configureLocked fo tlbId.toNat cfg) mmio_steady
        (Q := fun _ => Configuring card) ?_ fun status => ?_
      · refine configure_keeps (configureLocked_within (.inr rfl) (fun hmapped c hc off v => ?_) _ _ _)
        have hne := mapped_of_seen (b := .tlbRegs) hmapped
        obtain ⟨-, hp⟩ := ptr_of_seen hc .tlbRegs hne
        exact .inl ⟨off, v, congrArg (Op.mmioWrite · off v) hp, hne⟩
      · refine Triple.bind (p := release .state) mmio_steady (Q := fun _ => Holding False True .ioctl card)
          ?_ fun _ => hdone _
        refine Triple.weaken (P := Holding False True .ioctl card) ?_ (fun _ h => h.1) fun _ _ h => h
        exact off_keeps False ioctl_works (fun _ => .inr rfl) False.elim
          ((within_perform _).mpr (.inr id))

/-- What a request keeps, region by region. -/
theorem requestRegions_mmio (fileObject : Option FileObject) :
    RequestRegions driverMachine mmio fileObject (Holding False False .ioctl card)
      (Holding False False .ioctl card) (Holding False True .ioctl card)
      (Holding True False .ioctl card) where
  toArcRegions := arcRegions_mmio ioctl_works
  rejected := plain_keeps ioctl_works False.elim ((within_perform _).mpr trivial)
  fence := by
    refine Triple.weaken (plain_keeps ioctl_works False.elim
      (isStale_only trivial (fun _ => trivial) fileObject)) (fun _ h => h) fun stale w h => ?_
    cases stale <;> exact h
  started _ h := h
  opened _ h := ⟨h.onCard, False.elim, False.elim⟩
  clear hin hclear := load_mmio False ioctl_works (fun c _ => hin c) fun c _ => hclear c
  status := arcStatusLocked_mmio
  sysmemStatus := sysmemStatusLocked_mmio
  reset := ioctlResetDevice_mmio fileObject
  recover := recoverReset_mmio
  handle hp := Triple.weaken (off_keeps False ioctl_works (fun _ => .inr rfl) False.elim
    (hp.mono fun _ => handleFoot_off id)) (fun _ h => h) fun _ _ h => ⟨h.onCard, False.elim, False.elim⟩
  configure := configureTlb_mmio fileObject

end Ioctls

/-! ## Arrival and departure -/

/-- A property of the pointers, the route and the kernel mappings alone. -/
def OfBlocks (P : World → Prop) : Prop :=
  ∀ w w' : World, w'.ctx.ptr = w.ctx.ptr → w'.ctx.arcRoute = w.ctx.arcRoute →
    w'.ioMaps = w.ioMaps → w'.started = w.started → P w → P w'

/-- While a hardware callback runs, no other thread moves the register blocks. -/
theorem OfBlocks.stable {P : World → Prop} (hP : OfBlocks P) : mmio.Stable .hardware P := by
  intro w w' hr h
  have hu : Undisturbed .hardware w w' := hr trivial
  exact hP w w' hu.ptr (hu.route rfl) hu.ioMaps hu.started h

/-- A hardware callback runs alone; nobody relies on what it leaves. -/
theorem hardware_vis {α : Type} {o : Op} {k : o.Ans → Drv α} {P : World → Prop}
    {I : o.Ans → World → Prop} {Q : α → World → Prop} (hP : OfBlocks P) (ho : hardwareFoot o)
    (hstep : ∀ e x w w', P w → w.exec .hardware o e = some (x, w') → I x w')
    (hk : ∀ x, mmio.Triple driverMachine .hardware (I x) (k x) Q) :
    mmio.Triple driverMachine .hardware P (.vis o k) Q := by
  refine Triple.vis hP.stable (fun w _ _ => ⟨disciplined_of_no_register ?_, ?_⟩) ?_ hk
  · cases o <;> first | rfl | exact (ho : False).elim
  · cases o with
    | store f => exact .inr ⟨rfl, ho⟩
    | mmioWrite | setBusData => exact (ho : False).elim
    | _ => trivial
  intro w L e x w' hw hl hinv _ he
  refine ⟨⟨hinv.alone, fun hn => absurd hl hn⟩, ?_, hstep e x w w' hw he⟩
  intro u _ hd hx
  exact absurd (.inl ⟨rfl, hd⟩) hx

/-- What a hardware callback does that leaves the pointers and the mappings. -/
def hardwareOff : Op → Prop
  | .mapIoSpace _ _ | .unmapIoSpace _ _ => False
  | .store f => HardwareFrame f ∧ ∀ c, (f c).ptr = c.ptr ∧ (f c).arcRoute = c.arcRoute
  | o => hardwareFoot o

theorem hardwareFoot_of_off {o : Op} (h : hardwareOff o) : hardwareFoot o := by
  cases o <;> first | exact h | exact h.1 | exact (h : False).elim

/-- PrepareHardware and ReleaseHardware are off the device but for mapping and unmapping. -/
theorem hardwareScope_off : HardwareScope hardwareOff where
  silent o ho := by cases o <;> first | exact ho | exact (ho : False).elim
  store _ hf hp hr _ := ⟨hf, fun c => ⟨hp c, hr c⟩⟩
  queryInterface := trivial
  dereferenceInterface := trivial
  allocContiguous _ _ _ := trivial
  bufferZero _ := trivial

/-- Operations off the device keep what is said of the blocks alone. -/
theorem hardwareOff_ofBlocks {o : Op} {e : Choice} {x : o.Ans} {w w' : World} {P : World → Prop}
    (hP : OfBlocks P) (ho : hardwareOff o) (he : w.exec .hardware o e = some (x, w')) (hw : P w) :
    P w' := by
  have hf := World.exec_frame he
  have hio : w'.ioMaps = w.ioMaps := hf.ioMaps fun hm => by
    cases o <;> first | exact hm | exact ho
  have hsame : w'.ctx.ptr = w.ctx.ptr ∧ w'.ctx.arcRoute = w.ctx.arcRoute := by
    rw [hf.ctx]
    cases o with
    | store f => exact ho.2 w.ctx
    | locked s =>
      rw [Op.effect, Section.run_frame w.ctx s]
      exact ⟨rfl, rfl⟩
    | _ => exact ⟨rfl, rfl⟩
  exact hP w w' hsame.1 hsame.2 hio hf.started hw

/-- Code off the device keeps what is said of the blocks alone. -/
theorem hardware_keeps {α : Type} {p : Drv α} {P : World → Prop} (hP : OfBlocks P)
    (hp : p.Only hardwareOff) : mmio.Keeps driverMachine .hardware P p := by
  induction p with
  | pure a => exact Keeps.pure hP.stable
  | vis o k ih =>
    refine hardware_vis (I := fun _ => P) hP (hardwareFoot_of_off hp.1) (fun e x w w' hw he => ?_)
      fun x => ih x (hp.2 x trivial)
    exact hardwareOff_ofBlocks hP hp.1 he hw

/-- The hardware is arriving: the blocks in `bs` may be mapped already. -/
structure Coming (bs : List RegBlock) (w : World) : Prop where
  mapped : ∀ b, w.ctx.ptr b ≠ none → w.Mapped (w.ctx.ptr b)
  apart : ∀ b b', w.ctx.ptr b = w.ctx.ptr b' → w.ctx.ptr b ≠ none → b = b'
  unset : ∀ b, b ∉ bs → w.ctx.ptr b = none
  route : w.ctx.arcRoute ≠ .axi
  started : w.started = true

/-- Which blocks are mapped so far is said of the blocks alone. -/
theorem coming_ofBlocks (bs : List RegBlock) : OfBlocks (Coming bs) := by
  intro w w' hp hr hio hst h
  refine ⟨fun b hb => ?_, ?_, fun b hb => ?_, ?_, hst.trans h.started⟩
  · rw [hp] at hb ⊢
    rw [World.Mapped, hio]
    exact h.mapped b hb
  · rw [hp]
    exact h.apart
  · rw [hp]
    exact h.unset b hb
  · rw [hr]
    exact h.route

/-- Two such assertions together. -/
theorem OfBlocks.and {P Q : World → Prop} (hP : OfBlocks P) (hQ : OfBlocks Q) :
    OfBlocks fun w => P w ∧ Q w :=
  fun w w' hp hr hio hst h => ⟨hP w w' hp hr hio hst h.1, hQ w w' hp hr hio hst h.2⟩

theorem ptr_ofBlocks (P : (RegBlock → IoPtr) → Prop) : OfBlocks fun w => P w.ctx.ptr :=
  fun w w' hp _ _ _ h => by
    have h : P w.ctx.ptr := h
    rw [← hp] at h
    exact h

/-- The pointer is that of a new mapping, if it is one. -/
def World.Fresh (w : World) (p : IoPtr) : Prop := p ≠ none → w.Mapped p ∧ ∀ b, w.ctx.ptr b ≠ p

theorem fresh_ofBlocks (p : IoPtr) : OfBlocks fun w => w.Fresh p :=
  fun w w' hptr _ hio _ h hp => by
    rw [World.Mapped, hio, hptr]
    exact h hp

/-- The store sets the pointer of one block. -/
def SetsPtr (b : RegBlock) (p : IoPtr) (f : DeviceContext → DeviceContext) : Prop :=
  HardwareFrame f ∧
    ∀ c, (f c).ptr = Function.update c.ptr b p ∧ (f c).arcRoute = c.arcRoute

/-- A store that sets one pointer and leaves the others and the route. -/
theorem SetsPtr.of_fields {b : RegBlock} {p : IoPtr} {f : DeviceContext → DeviceContext}
    (hf : HardwareFrame f) (hb : ∀ c, (f c).ptr b = p) (hother : ∀ c b', b' ≠ b → (f c).ptr b' = c.ptr b')
    (hroute : ∀ c, (f c).arcRoute = c.arcRoute) : SetsPtr b p f := by
  refine ⟨hf, fun c => ?_⟩
  refine ⟨funext fun b' => ?_, hroute c⟩
  by_cases h : b' = b
  · subst h
    rw [Function.update_self]
    exact hb c
  · rw [Function.update_of_ne h]
    exact hother c b' h

/-- The stores of PrepareHardware and ReleaseHardware set one pointer each. -/
theorem setsPtr_tlbRegs (p : IoPtr) : SetsPtr .tlbRegs p fun c => { c with tlbRegs := p } :=
  .of_fields (fun _ => ⟨rfl, id⟩) (fun _ => rfl) (fun _ b hb => by cases b <;> first | rfl | exact absurd rfl hb)
    fun _ => rfl

theorem setsPtr_kernelTlb (p : IoPtr) : SetsPtr .kernelTlb p fun c => { c with kernelTlb := p } :=
  .of_fields (fun _ => ⟨rfl, id⟩) (fun _ => rfl) (fun _ b hb => by cases b <;> first | rfl | exact absurd rfl hb)
    fun _ => rfl

theorem setsPtr_arcApbAxi (p : IoPtr) : SetsPtr .arcApbAxi p fun c => { c with arcApbAxi := p } :=
  .of_fields (fun _ => ⟨rfl, id⟩) (fun _ => rfl) (fun _ b hb => by cases b <;> first | rfl | exact absurd rfl hb)
    fun _ => rfl

theorem setsPtr_bar2Iatu (p : IoPtr) : SetsPtr .bar2Iatu p fun c => { c with bar2Iatu := p } :=
  .of_fields (fun _ => ⟨rfl, id⟩) (fun _ => rfl) (fun _ b hb => by cases b <;> first | rfl | exact absurd rfl hb)
    fun _ => rfl

theorem setsPtr_nocIdRegs (p : IoPtr) : SetsPtr .nocIdRegs p fun c => { c with nocIdRegs := p } :=
  .of_fields (fun _ => ⟨rfl, id⟩) (fun _ => rfl) (fun _ b hb => by cases b <;> first | rfl | exact absurd rfl hb)
    fun _ => rfl

section Hardware

variable {α : Type} {b : RegBlock} {bs : List RegBlock} {Q : α → World → Prop}

/-- An operation off the device, in front. -/
theorem hardware_off {o : Op} {k : o.Ans → Drv α} {P : World → Prop} (hP : OfBlocks P)
    (ho : hardwareOff o) (hk : ∀ x, mmio.Triple driverMachine .hardware P (k x) Q) :
    mmio.Triple driverMachine .hardware P (op o >>= k) Q :=
  Triple.bind mmio_steady (hardware_keeps hP ((within_perform _).mpr ho)) hk

/-- One more block may come. -/
theorem Coming.cons {w : World} (h : Coming bs w) (b : RegBlock) : Coming (b :: bs) w :=
  ⟨h.mapped, h.apart, fun b' hb' => h.unset b' fun hm => hb' (List.mem_cons_of_mem _ hm), h.route, h.started⟩

/-- Map a block, or fail to, and record the pointer. -/
theorem mapBlock_mmio {phys : UInt64} {len : Nat} {f : IoPtr → DeviceContext → DeviceContext}
    {k : IoPtr → Unit → Drv α} (hf : ∀ p, SetsPtr b p (f p))
    (hk : ∀ p, mmio.Triple driverMachine .hardware
      (fun w => Coming (b :: bs) w ∧ w.ctx.ptr b = p) (k p ()) Q) :
    mmio.Triple driverMachine .hardware (Coming bs)
      (.vis (.mapIoSpace phys len) fun p => .vis (.store (f p)) (k p)) Q := by
  refine hardware_vis (I := fun p w => Coming bs w ∧ w.Fresh p) (coming_ofBlocks bs) trivial
    ?_ fun p => hardware_vis (I := fun _ w => Coming (b :: bs) w ∧ w.ctx.ptr b = p)
      ((coming_ofBlocks bs).and (fresh_ofBlocks p)) (hf p).1 ?_ fun _ => hk p
  · intro e p w w' hw he
    have hf := World.exec_frame he
    have hctx : w'.ctx = w.ctx := hf.ctx
    -- what was mapped stays so, beside the new block at an address not in use
    have key : (∀ q, w.Mapped q → w'.Mapped q) ∧ (p ≠ none → w'.Mapped p ∧ ¬ w.Mapped p) := by
      obtain ⟨w₁, hs, rfl⟩ := World.exec_step he
      cases e with
      | address a =>
        simp only [World.step, Option.ite_none_right_eq_some, Option.some.injEq, Prod.mk.injEq] at hs
        obtain ⟨hunused, rfl, rfl⟩ := hs
        refine ⟨fun q hq => ?_, fun _ => ⟨⟨_, List.mem_cons_self, rfl⟩, ?_⟩⟩
        · obtain ⟨m, hm, hq⟩ := hq
          exact ⟨m, List.mem_cons_of_mem _ hm, hq⟩
        · rintro ⟨m, hm, hbase⟩
          have hne := List.all_eq_true.mp hunused m hm
          simp only [Option.some.injEq] at hbase
          simp [hbase] at hne
      | fail s =>
        obtain ⟨rfl, rfl⟩ := Prod.mk.inj (Option.some.inj hs)
        exact ⟨fun _ hq => hq, fun hn => absurd rfl hn⟩
      | _ => cases hs
    have hfresh : w'.Fresh p := by
      intro hp
      refine ⟨(key.2 hp).1, fun b' hb' => (key.2 hp).2 ?_⟩
      rw [hctx] at hb'
      subst hb'
      exact hw.mapped b' hp
    refine ⟨⟨fun b' hb' => ?_, ?_, ?_, ?_, hf.started.trans hw.started⟩, hfresh⟩
    · rw [hctx] at hb' ⊢
      exact key.1 _ (hw.mapped b' hb')
    · rw [hctx]
      exact hw.apart
    · rw [hctx]
      exact hw.unset
    · rw [hctx]
      exact hw.route
  · intro e _ w w' hw he
    obtain ⟨hw, hp⟩ := hw
    have hframe := World.exec_frame he
    have hio : w'.ioMaps = w.ioMaps := hframe.ioMaps id
    have hctx : w'.ctx = f p w.ctx := hframe.ctx
    obtain ⟨hptr, hroute⟩ := (hf p).2 w.ctx
    rw [← hctx] at hptr hroute
    have hself : w'.ctx.ptr b = p := by rw [hptr, Function.update_self]
    have hother : ∀ b', b' ≠ b → w'.ctx.ptr b' = w.ctx.ptr b' := fun b' h => by
      rw [hptr, Function.update_of_ne h]
    refine ⟨⟨fun b' hb' => ?_, fun b₁ b₂ hsame hne => ?_, fun b' hb' => ?_, ?_,
      hframe.started.trans hw.started⟩, hself⟩
    · rw [World.Mapped, hio]
      by_cases h : b' = b
      · subst h
        rw [hself] at hb' ⊢
        exact (hp hb').1
      · rw [hother b' h] at hb' ⊢
        exact hw.mapped b' hb'
    · by_cases h₁ : b₁ = b <;> by_cases h₂ : b₂ = b
      · rw [h₁, h₂]
      · rw [h₁, hself, hother b₂ h₂] at hsame
        rw [h₁, hself] at hne
        exact absurd hsame.symm ((hp hne).2 b₂)
      · rw [h₂, hself, hother b₁ h₁] at hsame
        rw [hother b₁ h₁, hsame] at hne
        exact absurd hsame ((hp hne).2 b₁)
      · rw [hother b₁ h₁, hother b₂ h₂] at hsame
        rw [hother b₁ h₁] at hne
        exact hw.apart b₁ b₂ hsame hne
    · have hne : b' ≠ b := fun h => hb' (h ▸ List.mem_cons_self)
      rw [hother b' hne]
      exact hw.unset b' fun hm => hb' (List.mem_cons_of_mem _ hm)
    · rw [hroute]
      exact hw.route

/-- A block that is not covered by its BAR stays unmapped. -/
theorem mapOptional_mmio (covered : Bool) (phys : UInt64) (len : Nat)
    {f : IoPtr → DeviceContext → DeviceContext} (hf : ∀ p, SetsPtr b p (f p)) :
    mmio.Triple driverMachine .hardware (Coming bs) (mapOptional covered phys len f)
      fun _ => Coming (b :: bs) := by
  refine Triple.ite (fun _ => mapBlock_mmio hf fun p => ?_) fun _ => ?_
  · exact Triple.pure ((coming_ofBlocks _).and (ptr_ofBlocks fun ptr => ptr b = p)).stable fun _ h => h.1
  · exact Triple.pure (coming_ofBlocks bs).stable fun _ h => h.cons b

/-- PrepareHardware ends with every block mapped whose pointer it leaves set. -/
theorem prepareHardware_mmio (resources : List ResourceDesc) :
    mmio.Triple driverMachine .hardware (Coming []) (evtDevicePrepareHardware resources)
      fun _ => World.Settled := by
  have hdone : ∀ (bs : List RegBlock) (s : NtStatus), mmio.Triple driverMachine .hardware (Coming bs)
      (Pure.pure s) fun _ => World.Settled := by
    intro bs s
    refine Triple.pure (coming_ofBlocks bs).stable fun w h => ⟨⟨h.mapped, h.apart, ?_⟩, fun hst => ?_⟩
    · exact fun hr => absurd hr h.route
    · rw [h.started] at hst
      cases hst
  have hoff : ∀ (bs : List RegBlock) {β : Type} {p : Drv β}, p.Only hardwareOff →
      mmio.Keeps driverMachine .hardware (Coming bs) p := fun bs _ _ hp => hardware_keeps (coming_ofBlocks bs) hp
  refine Triple.bind mmio_steady (hoff _ (readPciIdentity_only hardwareScope_off.identity)) fun _ => ?_
  refine Triple.ite (fun _ => hdone _ _) fun _ => ?_
  refine hardware_off (coming_ofBlocks _) ⟨fun _ => ⟨rfl, id⟩, fun _ => ⟨rfl, rfl⟩⟩ fun _ => ?_
  refine Triple.bind (p := recordBars resources) mmio_steady
    (hoff _ (recordBars_only hardwareScope_off.identity _)) fun _ => ?_
  refine hardware_off (coming_ofBlocks _) trivial fun c => Triple.ite (fun _ => hdone _ _) fun _ => ?_
  refine mapBlock_mmio setsPtr_tlbRegs fun p => ?_
  refine Triple.weaken (P := Coming [.tlbRegs]) ?_ (fun _ h => h.1) fun _ _ h => h
  refine Triple.ite (fun _ => hdone _ _) fun _ => mapBlock_mmio setsPtr_kernelTlb fun q => ?_
  refine Triple.ite (fun hq => ?_) fun _ => ?_
  · -- the kernel window could not be mapped: undo the first block
    subst hq
    refine hardware_vis (I := fun _ w => (∀ b, b ≠ .tlbRegs → w.ctx.ptr b = none) ∧
      w.ctx.arcRoute ≠ .axi ∧ w.started = true)
      ((coming_ofBlocks _).and (ptr_ofBlocks fun ptr => ptr .kernelTlb = none)) trivial
      (fun e _ w w' hw he => ?_) fun _ => ?_
    · obtain ⟨hw, hnone⟩ := hw
      have hf := World.exec_frame he
      have hctx : w'.ctx = w.ctx := hf.ctx
      rw [hctx, hf.started]
      refine ⟨fun b hb => ?_, hw.route, hw.started⟩
      by_cases hk : b = .kernelTlb
      · subst hk
        exact hnone
      · exact hw.unset b (by simp [hk, hb])
    · refine hardware_vis (I := fun _ => Coming []) ?_ (setsPtr_tlbRegs none).1 (fun e _ w w' hw he => ?_) fun _ => hdone _ _
      · intro w w' hp hr _ hst hw
        rw [hp, hr, hst]
        exact hw
      · obtain ⟨hother, hroute, hst⟩ := hw
        have hf := World.exec_frame he
        have hset := (setsPtr_tlbRegs none).2 w.ctx
        have hptr : w'.ctx.ptr = Function.update w.ctx.ptr .tlbRegs none :=
          (congrArg DeviceContext.ptr hf.ctx).trans hset.1
        have hr : w'.ctx.arcRoute = w.ctx.arcRoute :=
          (congrArg DeviceContext.arcRoute hf.ctx).trans hset.2
        have hnone : ∀ b, w'.ctx.ptr b = none := by
          intro b
          rw [hptr]
          by_cases hb : b = .tlbRegs
          · rw [hb, Function.update_self]
          · rw [Function.update_of_ne hb]
            exact hother b hb
        exact ⟨fun b hb => absurd (hnone b) hb, fun b _ _ hb => absurd (hnone b) hb, fun b _ => hnone b, hr ▸ hroute, hf.started.trans hst⟩
  · refine Triple.weaken (P := Coming [.kernelTlb, .tlbRegs]) ?_ (fun _ h => h.1) fun _ _ h => h
    refine Triple.bind mmio_steady (mapOptional_mmio _ _ _ setsPtr_arcApbAxi) fun _ => ?_
    refine Triple.bind mmio_steady (mapOptional_mmio _ _ _ setsPtr_nocIdRegs) fun _ => ?_
    refine Triple.bind mmio_steady (mapOptional_mmio _ _ _ setsPtr_bar2Iatu) fun _ => ?_
    exact Triple.bind mmio_steady (hoff _ (sysmemAllocate_only hardwareScope_off)) fun _ => hdone _ _

/-- The hardware is leaving: the blocks in `bs` are gone, and the route if `routeless`. -/
def Leaving (bs : List RegBlock) (routeless : Prop) (w : World) : Prop :=
  (∀ b ∈ bs, w.ctx.ptr b = none) ∧ (routeless → w.ctx.arcRoute ≠ .axi)

theorem leaving_ofBlocks (bs : List RegBlock) (routeless : Prop) :
    OfBlocks (Leaving bs routeless) := by
  intro w w' hp hr _ _ h
  rw [Leaving, hp, hr]
  exact h

/-- Unmapping a block clears its pointer in the same breath. -/
theorem releasePtr_mmio {routeless : Prop} {get : DeviceContext → IoPtr}
    {clear : DeviceContext → DeviceContext} (len : Nat) (hget : ∀ c, get c = c.ptr b)
    (hclear : SetsPtr b none clear) :
    mmio.Triple driverMachine .hardware (Leaving bs routeless) (releasePtr get clear len)
      fun _ => Leaving (b :: bs) routeless := by
  have hcons : ∀ {w : World}, w.ctx.ptr b = none → Leaving bs routeless w →
      Leaving (b :: bs) routeless w := by
    intro w hb h
    refine ⟨fun b' hb' => ?_, h.2⟩
    rcases List.mem_cons.mp hb' with rfl | hb'
    · exact hb
    · exact h.1 b' hb'
  refine hardware_vis (I := fun c w => Leaving bs routeless w ∧ w.ctx.ptr = DeviceContext.ptr c)
    (leaving_ofBlocks _ _) trivial (fun e c w w' hw he => ?_) fun c => Triple.ite (fun _ => ?_) fun hnone => ?_
  · have hctx : w'.ctx = w.ctx := (World.exec_frame he).ctx
    obtain ⟨w₁, hs, -⟩ := World.exec_step he
    obtain ⟨rfl, -⟩ := Prod.mk.inj (Option.some.inj hs)
    rw [Leaving, hctx]
    exact ⟨hw, rfl⟩
  · have hblocks := (leaving_ofBlocks bs routeless).and (ptr_ofBlocks fun ptr => ptr = DeviceContext.ptr c)
    refine hardware_vis (I := fun _ => Leaving bs routeless) hblocks trivial (fun e _ w w' hw he => ?_)
      fun _ => hardware_vis (I := fun _ => Leaving (b :: bs) routeless) (leaving_ofBlocks _ _) hclear.1
        (fun e _ w w' hw he => ?_) fun _ => Keeps.pure (leaving_ofBlocks _ _).stable
    · have hctx : w'.ctx = w.ctx := (World.exec_frame he).ctx
      rw [Leaving, hctx]
      exact hw.1
    · have hf := World.exec_frame he
      have hptr : w'.ctx.ptr = Function.update w.ctx.ptr b none :=
        (congrArg DeviceContext.ptr hf.ctx).trans (hclear.2 w.ctx).1
      have hr : w'.ctx.arcRoute = w.ctx.arcRoute :=
        (congrArg DeviceContext.arcRoute hf.ctx).trans (hclear.2 w.ctx).2
      refine hcons (by rw [hptr, Function.update_self]) ⟨fun b' hb' => ?_, hr ▸ hw.2⟩
      rw [hptr, Function.update_apply]
      split
      · rfl
      · exact hw.1 b' hb'
  · refine Triple.pure ((leaving_ofBlocks bs routeless).and
      (ptr_ofBlocks fun ptr => ptr = DeviceContext.ptr c)).stable fun w hw => hcons ?_ hw.1
    rw [hw.2, ← hget]
    exact not_not.mp hnone

/-- ReleaseHardware leaves no block and no route. -/
theorem releaseHardware_mmio :
    mmio.Triple driverMachine .hardware (Leaving [] False) evtDeviceReleaseHardware
      fun _ => World.Settled := by
  have hoff : ∀ {bs : List RegBlock} {routeless : Prop} {β : Type} {p : Drv β}, p.Only hardwareOff →
      mmio.Keeps driverMachine .hardware (Leaving bs routeless) p :=
    fun hp => hardware_keeps (leaving_ofBlocks _ _) hp
  have hrevoke : revokeAllMappings.Only hardwareOff := by
    refine ⟨rfl, fun _ _ => destroyAll_only ?_ _⟩
    exact ⟨trivial, fun _ => trivial, fun _ => trivial, fun _ => trivial, fun _ => trivial,
      fun _ _ => trivial, fun _ => trivial, fun _ => trivial, fun _ => trivial⟩
  refine Triple.bind mmio_steady (hoff hrevoke) fun _ => ?_
  refine hardware_off (leaving_ofBlocks _ _) trivial fun _ => ?_
  refine Triple.bind mmio_steady (releasePtr_mmio (b := .kernelTlb) _ (fun _ => rfl)
    (setsPtr_kernelTlb none)) fun _ => ?_
  refine Triple.bind mmio_steady (releasePtr_mmio (b := .arcApbAxi) _ (fun _ => rfl)
    (setsPtr_arcApbAxi none)) fun _ => ?_
  refine Triple.bind mmio_steady (releasePtr_mmio (b := .bar2Iatu) _ (fun _ => rfl)
    (setsPtr_bar2Iatu none)) fun _ => ?_
  refine Triple.bind mmio_steady (releasePtr_mmio (b := .nocIdRegs) _ (fun _ => rfl)
    (setsPtr_nocIdRegs none)) fun _ => ?_
  refine hardware_vis (I := fun _ => Leaving [.nocIdRegs, .bar2Iatu, .arcApbAxi, .kernelTlb] True)
    (leaving_ofBlocks _ _) (fun _ => ⟨rfl, nofun⟩) (fun e _ w w' hw he => ?_) fun _ => ?_
  · have hf := World.exec_frame he
    have hptr : w'.ctx.ptr = w.ctx.ptr := (congrArg DeviceContext.ptr hf.ctx).trans rfl
    have hr : w'.ctx.arcRoute = .none := (congrArg DeviceContext.arcRoute hf.ctx).trans rfl
    rw [Leaving, hptr, hr]
    exact ⟨hw.1, fun _ => by simp⟩
  refine hardware_off (leaving_ofBlocks _ _) trivial fun _ => ?_
  refine Triple.bind (p := sysmemFree) mmio_steady (hoff (sysmemFree_only hardwareScope_off fun _ _ => trivial)) fun _ => ?_
  refine hardware_off (leaving_ofBlocks _ _) trivial fun _ => ?_
  refine Triple.bind mmio_steady (releasePtr_mmio (b := .tlbRegs) _ (fun _ => rfl)
    (setsPtr_tlbRegs none)) fun _ => ?_
  refine hardware_off (leaving_ofBlocks _ _) trivial fun _ => ?_
  refine Triple.bind (p := releaseBusInterface) mmio_steady
    (hoff (releaseBusInterface_only hardwareScope_off.identity)) fun _ => ?_
  refine hardware_off (leaving_ofBlocks _ _) ⟨fun _ => ⟨rfl, id⟩, fun _ => ⟨rfl, rfl⟩⟩ fun _ => ?_
  refine Triple.pure (leaving_ofBlocks _ _).stable fun w hw => ?_
  have hbare : w.Bare := ⟨fun b => hw.1 b (by cases b <;> simp), hw.2 trivial⟩
  exact ⟨hbare.ready, fun _ => hbare⟩

end Hardware

/-! ## Handles -/

/-- What the callbacks of a handle do: no store, no register and no config write. -/
def fileOff : Op → Prop
  | .mmioRead _ _ | .mmioWrite _ _ _ | .mapIoSpace _ _ | .unmapIoSpace _ _ | .store _
  | .setBusData _ _ => False
  | _ => True

/-- The callbacks of a file object are off the device. -/
theorem file_keeps {t : Tid} {p : Drv Unit} (hp : p.Only fileOff) :
    mmio.Keeps driverMachine t (fun _ => True) p := by
  refine Keeps.of_within (Stable.true t) (fun o ho _ _ _ => ?_) ?_ hp
  · refine ⟨disciplined_of_no_register ?_, ?_⟩ <;>
      cases o <;> first | rfl | trivial
  · intro o ho w L e x w' _ _ hinv _ he
    have hctx := (World.exec_frame he).ctx
    have hs : w.SameBlocks w' := exec_sameBlocks (by
      cases o <;> trivial) he
    have hsame : w'.ctx.arcRoute = w.ctx.arcRoute ∧ w'.ctx.needsHwInit = w.ctx.needsHwInit ∧
        w'.ctx.sysmemVerified = w.ctx.sysmemVerified := by
      rw [hctx]
      cases o with
      | store f => exact (ho : False).elim
      | locked s =>
        rw [Op.effect, Section.run_frame w.ctx s]
        exact ⟨rfl, rfl, rfl⟩
      | _ => exact ⟨rfl, rfl, rfl⟩
    refine ⟨exec_mmioInv he hinv hs fun hready hr => hready.route (hsame.1 ▸ hr), ?_, trivial, trivial⟩
    exact exec_guar he hs (.inl hsame.2.1) (.inl hsame.2.2) (.inr hsame.1)

/-! ## The whole system -/

theorem settled_ofBlocks : OfBlocks World.Settled := by
  intro w w' hp hr hio hst h
  have hbare : w.Bare → w'.Bare := fun hb => ⟨fun b => by rw [hp]; exact hb.ptr b, hr ▸ hb.route⟩
  refine ⟨⟨fun b hb => ?_, ?_, fun hx => ?_⟩, fun hs => hbare (h.bare (hst ▸ hs))⟩
  · rw [World.Mapped, hio]
    rw [hp] at hb ⊢
    exact h.ready.mapped b hb
  · rw [hp]
    exact h.ready.apart
  · rw [hp]
    exact h.ready.route (hr ▸ hx)

/-- A call that begins on a settled world knows the card. -/
theorem holding_of_settled {w w' : World} (h : w.Settled) (hctx : w'.ctx = w.ctx)
    (hio : w'.ioMaps = w.ioMaps) (t : Tid) : Holding False False t w.ctx.card w' := by
  refine ⟨⟨congrArg DeviceContext.card hctx, fun b hb => ?_⟩, False.elim, False.elim⟩
  rw [World.Mapped, hio]
  exact h.ready.mapped b hb

/-- Every call begins safely. -/
theorem begins_mmio {L : Tid → Prop} {t : Tid} {p : Drv Unit} {w w' : World}
    (h : Begins L t p w w') (hnl : ¬ L t) (hinv : MmioInv L w) :
    mmio.Safe driverMachine t p (fun _ => mmio.post t) w' := by
  have hpost : ∀ {u : Tid}, u ≠ .hardware → ∀ w, mmio.post u w := fun hu _ h => absurd h hu
  cases h with
  | ioctl r code p hhw =>
    have hkeeps : mmio.Keeps driverMachine .ioctl (Holding False False .ioctl w.ctx.card)
        (evtIoDeviceControl r.fileObject code) :=
      (requestRegions_mmio r.fileObject).evtIoDeviceControl code
    refine Protocol.Safe.mono (hkeeps _ ?_) fun _ _ _ => hpost (by simp) _
    apply holding_of_settled (hinv.settled hhw) <;> rfl
  | power cb p hhw =>
    have hkeeps : mmio.Keeps driverMachine .power (Holding False False .power w.ctx.card) cb.code :=
      (arcRegions_mmio (.inr rfl)).powerCallback cb
    refine Protocol.Safe.mono (hkeeps _ ?_) fun _ _ _ => hpost (by simp) _
    apply holding_of_settled (hinv.settled hhw) <;> rfl
  | prepare resources p _ _ hstopped =>
    have hbare := (hinv.settled hnl).bare hstopped
    have hprepare : mmio.Triple driverMachine .hardware (Coming [])
        (do let _ ← evtDevicePrepareHardware resources) fun _ => World.Settled :=
      Triple.bind mmio_steady (prepareHardware_mmio resources) fun _ =>
        Triple.pure settled_ofBlocks.stable fun _ h => h
    refine Protocol.Safe.mono (hprepare _ ⟨fun b hb => absurd (hbare.ptr b) hb,
      fun b _ _ hb => absurd (hbare.ptr b) hb, fun b _ => hbare.ptr b, hbare.route, rfl⟩) fun _ _ hq _ => hq
  | release p =>
    refine Protocol.Safe.mono (releaseHardware_mmio _ ⟨fun _ hb => absurd hb (by simp), False.elim⟩)
      fun _ _ hq _ => hq
  | create fo p =>
    refine Protocol.Safe.mono (file_keeps ((evtDeviceFileCreate_only fo).mono fun o ho => ?_) _ trivial)
      fun _ _ _ => hpost (by simp) _
    cases o <;> trivial
  | cleanup fo p =>
    refine Protocol.Safe.mono (file_keeps ((evtFileCleanup_only fo).mono fun o ho => ?_) _ trivial)
      fun _ _ _ => hpost (by simp) _
    cases o <;> trivial

/-- A beginning leaves alone what the live threads rely on. -/
theorem begins_undisturbed {L : Tid → Prop} {t u : Tid} {p : Drv Unit} {w w' : World}
    (h : Begins L t p w w') (hnl : ¬ L t) (hu : L u) (hd : u.Drives) : Undisturbed u w w' := by
  have hne : u ≠ t := by
    rintro rfl
    exact hnl hu
  have hstarted : w'.started = w.started := by
    cases h with
    | prepare resources p hp hi =>
      cases u with
      | ioctl => exact absurd hu hi
      | power => exact absurd hu hp
      | hardware => exact absurd rfl hne
      | _ => exact hd.elim
    | release p hp hi =>
      cases u with
      | ioctl => exact absurd hu hi
      | power => exact absurd hu hp
      | hardware => exact absurd rfl hne
      | _ => exact hd.elim
    | _ => rfl
  refine ⟨⟨?_, ?_⟩, hstarted, fun l hl => ?_, fun _ => ?_, fun _ => ?_, ?_, fun _ => ?_⟩
  · rw [begins_ctx h]
  · cases h <;> rfl
  · cases h <;> exact hl
  · rw [begins_ctx h]
  · rw [begins_ctx h]
  · cases h <;> exact Function.update_of_ne hne _ _
  · rw [begins_ctx h]

theorem begins_mmioInv {L : Tid → Prop} {t : Tid} {p : Drv Unit} {w w' : World}
    (h : Begins L t p w w') (hinv : MmioInv L w) : MmioInv (fun u => u = t ∨ L u) w' := by
  -- a settled world is settled for a call that begins on it
  have hsettled : w'.ioMaps = w.ioMaps → w'.started = w.started → w.Settled → w'.Settled :=
    fun hio hst hs => settled_ofBlocks w w' (by rw [begins_ctx h]) (by rw [begins_ctx h]) hio hst hs
  cases h with
  | ioctl r code p hhw =>
    refine ⟨fun hl => absurd (hl.resolve_left (by simp)) hhw, fun _ => ?_⟩
    exact hsettled rfl rfl (hinv.settled hhw)
  | power cb p hhw =>
    refine ⟨fun hl => absurd (hl.resolve_left (by simp)) hhw, fun _ => ?_⟩
    exact hsettled rfl rfl (hinv.settled hhw)
  | prepare resources p hp hi =>
    refine ⟨fun _ => ⟨?_, ?_⟩, fun hn => absurd (.inl rfl) hn⟩
    · exact fun hl => hi (hl.resolve_left (by simp))
    · exact fun hl => hp (hl.resolve_left (by simp))
  | release p hp hi =>
    refine ⟨fun _ => ⟨?_, ?_⟩, fun hn => absurd (.inl rfl) hn⟩
    · exact fun hl => hi (hl.resolve_left (by simp))
    · exact fun hl => hp (hl.resolve_left (by simp))
  | create fo p =>
    refine ⟨fun hl => ⟨?_, ?_⟩, fun hn => hsettled rfl rfl (hinv.settled fun hl => hn (.inr hl))⟩
    · exact fun hi => (hinv.alone (hl.resolve_left (by simp))).1 (hi.resolve_left (by simp))
    · exact fun hi => (hinv.alone (hl.resolve_left (by simp))).2 (hi.resolve_left (by simp))
  | cleanup fo p =>
    refine ⟨fun hl => ⟨?_, ?_⟩, fun hn => hsettled rfl rfl (hinv.settled fun hl => hn (.inr hl))⟩
    · exact fun hi => (hinv.alone (hl.resolve_left (by simp))).1 (hi.resolve_left (by simp))
    · exact fun hi => (hinv.alone (hl.resolve_left (by simp))).2 (hi.resolve_left (by simp))

/-- The protocol is kept by every call, against every other. -/
theorem mmio_sound : mmio.Sound driver where
  toSteady := mmio_steady
  initial w hw := by
    obtain ⟨buffer, rfl⟩ := hw
    have hbare : World.Bare { buffer } := ⟨fun b => by cases b <;> rfl, by simp⟩
    exact ⟨fun h => h.elim, fun _ => ⟨hbare.ready, fun _ => hbare⟩⟩
  compat L t t' w w' hl hl' hne hinv _ hg hd := by
    refine hg t' (Ne.symm hne) hd ?_
    rintro (⟨rfl, -⟩ | ⟨rfl, hdt⟩)
    · have halone := hinv.alone hl
      cases t' with
      | ioctl => exact halone.1 hl'
      | power => exact halone.2 hl'
      | hardware => exact hne rfl
      | _ => exact hd
    · have halone := hinv.alone hl'
      cases t with
      | ioctl => exact halone.1 hl
      | power => exact halone.2 hl
      | hardware => exact hne rfl
      | _ => exact hdt
  begins L t p w w' hb hnl hinv _ :=
    ⟨begins_mmioInv hb hinv, fun _ ht' hd => begins_undisturbed hb hnl ht' hd, begins_mmio hb hnl hinv⟩
  ends L t w w' he hl hinv _ hpost := by
    obtain rfl : w' = w.leave t := he
    have hctx : (w.leave t).ctx = w.ctx := w.leave_ctx t
    have hsame : (w.leave t).ioMaps = w.ioMaps ∧ (w.leave t).started = w.started ∧
        (w.leave t).holder = w.holder ∧ (w.leave t).hist = w.hist := by
      cases t <;> exact ⟨rfl, rfl, rfl, rfl⟩
    obtain ⟨hio, hst, hlock, hhist⟩ := hsame
    refine ⟨⟨fun h => ?_, fun hn => ?_⟩, fun t' _ _ => ?_⟩
    · have halone := hinv.alone h.2
      exact ⟨fun hi => halone.1 hi.2, fun hp => halone.2 hp.2⟩
    · refine settled_ofBlocks w _ (by rw [hctx]) (by rw [hctx]) hio hst ?_
      by_cases ht : t = .hardware
      · exact hpost ht
      · exact hinv.settled fun hh => hn ⟨fun hx => ht hx.symm, hh⟩
    · exact ⟨⟨by rw [hctx], hio⟩, hst, fun l h => (congrFun hlock l).trans h, fun _ => by rw [hctx],
        fun _ => by rw [hctx], by rw [hhist], fun _ => by rw [hctx]⟩
  env L w w' he hinv _ := by
    have hsame : w'.ctx = w.ctx ∧ w'.ioMaps = w.ioMaps ∧ w'.started = w.started ∧
        w'.holder = w.holder ∧ w'.hist = w.hist := by
      cases he <;> exact ⟨rfl, rfl, rfl, rfl, rfl⟩
    obtain ⟨hctx, hio, hst, hlock, hhist⟩ := hsame
    refine ⟨⟨hinv.alone, fun hn => ?_⟩, fun t' _ _ => ?_⟩
    · exact settled_ofBlocks w w' (by rw [hctx]) (by rw [hctx]) hio hst (hinv.settled hn)
    · exact ⟨⟨by rw [hctx], hio⟩, hst, fun l h => (congrFun hlock l).trans h, fun _ => by rw [hctx],
        fun _ => by rw [hctx], by rw [hhist], fun _ => by rw [hctx]⟩

/-- So its invariant holds in every reachable configuration. -/
theorem reach_mmioInv {c : DriverConfig} (h : Reach driver anyStep c) : MmioInv c.live c.world :=
  (mmio_sound.good (show Reach driver mmio.allow c from h)).inv

/-- Every write of every run is placed. -/
theorem reach_placed {c : DriverConfig} (h : Reach driver anyStep c) : Reach driver Placed c :=
  h.restrict fun _ _ _ _ hc hp _ => (mmio_sound.about hc hp trivial).2

/-- Every register access of every run goes through a block of the card that is mapped
then, and happens while no reset is in flight, or is the readback of a POST_RESET that
has seen the vendor ID and a clear parity marker and has restored the saved config. -/
theorem register_access_disciplined {c : DriverConfig} (h : Reach driver anyStep c) {t : Tid}
    {o : Op} {k : o.Ans → Drv Unit} (hp : c.pool t = some (.vis o k)) {p : IoPtr} {off : Nat}
    (ho : o.register = some (p, off)) :
    (∃ b, c.world.ctx.ptr b = p) ∧ c.world.Mapped p ∧
      (c.world.ctx.needsHwInit = false ∨ t = .ioctl ∧ c.world.ctx.IsReadback p off ∧
        RecoveryChecked c.world.ctx.vendorId (c.world.hist .ioctl)) :=
  (mmio_sound.about h hp trivial).1 p off ho

/-- The register that is accessed next. -/
def nextRegister : Option (Drv Unit) → Option (IoPtr × Nat)
  | some (.vis o _) => o.register
  | _ => none

theorem exists_of_nextRegister {q : Option (Drv Unit)} {r : IoPtr × Nat} (h : nextRegister q = some r) :
    ∃ o k, q = some (.vis o k) ∧ o.register = some r := by
  unfold nextRegister at h
  split at h
  · exact ⟨_, _, rfl, h⟩
  · cases h

/-- A card arrives, and its power-up is about to aim the kernel window. -/
def aimingRun : List Move :=
  cardArrives 0x10000000 ++ [.power .init 0, .ops .power (plainOps 2 ++ [.count 0] ++ plainOps 2)]

/-- A power callback about to aim the kernel window. -/
theorem register_access_disciplined_aiming :
    ∃ (c : DriverConfig) (o : Op) (k : o.Ans → Drv Unit),
      c.pool .power = some (.vis o k) ∧ o.register = some (some 1, 2412) ∧
      (∃ b, c.world.ctx.ptr b = some 1) ∧ c.world.Mapped (some 1) ∧
      (c.world.ctx.needsHwInit = false ∨ Tid.power = .ioctl ∧
        c.world.ctx.IsReadback (some 1) 2412 ∧
        RecoveryChecked c.world.ctx.vendorId (c.world.hist .ioctl)) := by
  have hplay : (DriverConfig.play (fun _ _ _ => true) aimingRun idle).any (fun c =>
      nextRegister (c.pool .power) == some (some 1, 2412)) = true := by decide
  obtain ⟨c, hreach, hend⟩ := DriverConfig.exists_reach (fun _ _ _ _ => trivial) hplay
  obtain ⟨o, k, hpool, ho⟩ := exists_of_nextRegister (beq_iff_eq.mp hend)
  exact ⟨c, o, k, hpool, ho, register_access_disciplined hreach hpool ho⟩

end TtWind
