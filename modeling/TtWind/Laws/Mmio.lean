import TtWind.Laws.Frame
import TtWind.Laws.Programs
import TtWind.Laws.Regions
import TtWind.Laws.Schedule
import TtWind.Laws.Sections

/-!
# Register accesses

Five register blocks of the card are mapped into the kernel while its hardware is
there. Every access the driver makes goes through one of them while it is mapped, and
while no reset is in flight; only POST_RESET reads the kernel window's registers back
before it lifts the restriction.

The ioctl thread alone changes `needsHwInit`, under ArcLock; the power callbacks test it
under ArcLock. Only the hardware callbacks map and unmap, while neither of the other two
runs. `Undisturbed` is what a thread may rely on because of that.

`Placed` says more of the operations that write: which block and which registers of it,
under which lock, and which fields of the device context.
-/

set_option autoImplicit false

namespace TtWind

open TtWind.Effect TtWind.Effect.Prog TtWind.Effect.Protocol

/-! ## Blocks and accesses -/

/-- What the driver knows of the card from its arrival on. -/
structure Card where
  vendorId : UInt16
  ptr : RegBlock → IoPtr

def DeviceContext.card (c : DeviceContext) : Card := ⟨c.vendorId, c.ptr⟩

/-- The register an operation accesses. -/
def Op.register : Op → Option (IoPtr × Nat)
  | .mmioRead p off | .mmioWrite p off _ => some (p, off)
  | _ => none

/-- The pointer is the base of a live kernel mapping. -/
def World.Mapped (w : World) (p : IoPtr) : Prop := ∃ m ∈ w.ioMaps, some m.base = p

/-- One of the three registers of the kernel's own window. -/
def DeviceContext.IsReadback (c : DeviceContext) (p : IoPtr) (off : Nat) : Prop :=
  p = c.tlbRegs ∧ kernelTlbIndex * tlbRegSize ≤ off ∧ off < (kernelTlbIndex + 1) * tlbRegSize

/-- Every dword of the saved config has been written back in full. -/
def Restored (saved : Nat → UInt8) (evs : List Event) : Prop :=
  ∀ i < pciCfgSaveBytes / 4, (⟨.setBusData (i * 4) (savedDword saved i), 4⟩ : Event) ∈ evs

/-- The call has read the card's vendor ID and a COMMAND register without the parity
marker, and then restored the saved config. -/
def RecoveryChecked (vendorId : UInt16) (evs : List Event) : Prop :=
  ∃ (restore before : List Event) (idData cmdData : List UInt8) (c : DeviceContext),
    evs = restore ++ before ∧
    (⟨.getBusData pciCfgVendorId 2, idData⟩ : Event) ∈ before ∧
    idData.length = 2 ∧ word16 idData = vendorId ∧
    (⟨.getBusData pciCfgCommand 2, cmdData⟩ : Event) ∈ before ∧
    cmdData.length = 2 ∧ word16 cmdData &&& pciCmdParity = 0 ∧
    (⟨.load, c⟩ : Event) ∈ before ∧ Restored c.savedConfig restore

theorem RecoveryChecked.cons {vendorId : UInt16} {evs : List Event}
    (h : RecoveryChecked vendorId evs) (ev : Event) : RecoveryChecked vendorId (ev :: evs) := by
  obtain ⟨restore, before, idData, cmdData, c, rfl, hid, hidl, hidv, hcmd, hcmdl, hcmdv, hc, hr⟩ := h
  exact ⟨ev :: restore, before, idData, cmdData, c, rfl, hid, hidl, hidv, hcmd, hcmdl, hcmdv, hc,
    fun i hi => List.mem_cons_of_mem _ (hr i hi)⟩

/-- A register access is through a mapped block of the card, and no reset is in flight
unless it is the readback of a POST_RESET that has checked the card. -/
def Disciplined (t : Tid) (o : Op) (w : World) : Prop :=
  ∀ p off, o.register = some (p, off) →
    (∃ b, w.ctx.ptr b = p) ∧ w.Mapped p ∧
      (w.ctx.needsHwInit = false ∨
        t = .ioctl ∧ w.ctx.IsReadback p off ∧ RecoveryChecked w.ctx.vendorId (w.hist .ioctl))

theorem disciplined_of_no_register {t : Tid} {o : Op} {w : World} (h : o.register = none) :
    Disciplined t o w := by
  intro p off hr
  rw [h] at hr
  cases hr

/-! ## Where the driver writes -/

/-- The threads that work on the device. -/
def Tid.Works (t : Tid) : Prop := t = .ioctl ∨ t = .power

/-- A register the code under ArcLock may write: the kernel window's own, whatever that
window or the aperture shows, and the iATU's while no buffer is advertised. -/
def DeviceContext.ArcWrite (c : DeviceContext) (p : IoPtr) (off : Nat) : Prop :=
  (p = c.ptr .tlbRegs ∧ WindowReg kernelTlbIndex off) ∨ p = c.ptr .kernelTlb ∨
    p = c.ptr .arcApbAxi ∨ (p = c.ptr .bar2Iatu ∧ c.sysmemVerified = false)

/-- The store that takes the advertised buffer back. -/
def unverify (c : DeviceContext) : DeviceContext := { c with sysmemVerified := false }

/-- The store that advertises the buffer. -/
def verify (c : DeviceContext) : DeviceContext := { c with sysmemVerified := true }

/-- A store the code under ArcLock may make. -/
def DeviceContext.ArcStore (t : Tid) (c : DeviceContext) (f : DeviceContext → DeviceContext) :
    Prop :=
  QuietFrame f ∨ f = unverify ∨ (t = .ioctl ∧ RestrictFrame f) ∨
    (ArcFrame f ∧ c.sysmemVerified = false ∧ c.needsHwInit = false)

/-- Writes to registers, to config space and to the device context are made under ArcLock,
by CONFIGURE_TLB under StateLock, or by a hardware callback. -/
def Placed (t : Tid) (o : Op) (w : World) : Prop :=
  match o with
  | .mmioWrite p off _ => (w.arcLock = some t ∧ w.ctx.ArcWrite p off) ∨
      (t = .ioctl ∧ w.stateLock = some .ioctl ∧ p = w.ctx.ptr .tlbRegs)
  | .setBusData _ _ => t = .ioctl ∧ w.arcLock = some .ioctl
  | .store f => (t.Works ∧ w.arcLock = some t ∧ w.ctx.ArcStore t f) ∨
      (t = .hardware ∧ HardwareFrame f)
  | _ => True

/-! ## What a thread may rely on -/

/-- The threads that work on the device or map it. -/
def Tid.Drives : Tid → Prop
  | .ioctl | .power | .hardware => True
  | _ => False

/-- The hardware callbacks run while neither a request nor a power callback does. -/
def Tid.Excludes (t u : Tid) : Prop := (t = .hardware ∧ u.Drives) ∨ (u = .hardware ∧ t.Drives)

/-- The card and its mappings are as they were. -/
structure World.SameBlocks (w w' : World) : Prop where
  card : w'.ctx.card = w.ctx.card
  ioMaps : w'.ioMaps = w.ioMaps

/-- What thread `t` counts on to stay while others step. -/
structure Undisturbed (t : Tid) (w w' : World) : Prop extends w.SameBlocks w' where
  started : w'.started = w.started
  lock : ∀ l, w.holder l = some t → w'.holder l = some t
  needs : t = .ioctl ∨ w.arcLock = some t → w'.ctx.needsHwInit = w.ctx.needsHwInit
  verified : w.arcLock = some t → w'.ctx.sysmemVerified = w.ctx.sysmemVerified
  hist : w'.hist t = w.hist t
  route : t = .hardware → w'.ctx.arcRoute = w.ctx.arcRoute

theorem World.SameBlocks.ptr {w w' : World} (h : w.SameBlocks w') : w'.ctx.ptr = w.ctx.ptr :=
  congrArg Card.ptr h.card

theorem World.SameBlocks.refl (w : World) : w.SameBlocks w := ⟨rfl, rfl⟩

theorem World.SameBlocks.trans {u v w : World} (h₁ : u.SameBlocks v) (h₂ : v.SameBlocks w) :
    u.SameBlocks w :=
  ⟨h₂.card.trans h₁.card, h₂.ioMaps.trans h₁.ioMaps⟩

theorem Undisturbed.refl (t : Tid) (w : World) : Undisturbed t w w :=
  ⟨.refl w, rfl, fun _ => id, fun _ => rfl, fun _ => rfl, rfl, fun _ => rfl⟩

theorem Undisturbed.trans {t : Tid} {u v w : World} (h₁ : Undisturbed t u v)
    (h₂ : Undisturbed t v w) : Undisturbed t u w where
  toSameBlocks := h₁.toSameBlocks.trans h₂.toSameBlocks
  started := h₂.started.trans h₁.started
  lock l h := h₂.lock l (h₁.lock l h)
  needs h := (h₂.needs (h.imp_right (h₁.lock .arc))).trans (h₁.needs h)
  verified h := (h₂.verified (h₁.lock .arc h)).trans (h₁.verified h)
  hist := h₂.hist.trans h₁.hist
  route h := (h₂.route h).trans (h₁.route h)

/-- The blocks are mapped at distinct addresses, and the aperture is the discovered route
only when it is. -/
structure World.Ready (w : World) : Prop where
  mapped : ∀ b, w.ctx.ptr b ≠ none → w.Mapped (w.ctx.ptr b)
  apart : ∀ b b', w.ctx.ptr b = w.ctx.ptr b' → w.ctx.ptr b ≠ none → b = b'
  route : w.ctx.arcRoute = .axi → w.ctx.ptr .arcApbAxi ≠ none

/-- No block is mapped. -/
structure World.Bare (w : World) : Prop where
  ptr : ∀ b, w.ctx.ptr b = none
  route : w.ctx.arcRoute ≠ .axi

theorem World.Bare.ready {w : World} (h : w.Bare) : w.Ready :=
  ⟨fun b hb => absurd (h.ptr b) hb, fun b _ _ hb => absurd (h.ptr b) hb, fun hr => absurd hr h.route⟩

/-- The blocks are mapped, or the hardware is not there and none is. -/
structure World.Settled (w : World) : Prop where
  ready : w.Ready
  bare : w.started = false → w.Bare

/-- The world is settled while no hardware callback runs. -/
structure MmioInv (L : Tid → Prop) (w : World) : Prop where
  alone : L .hardware → ¬ L .ioctl ∧ ¬ L .power
  settled : ¬ L .hardware → w.Settled

/-- A hardware callback ends with the world settled. -/
def mmio : Protocol DriverSig Tid World where
  inv := MmioInv
  rely t w w' := t.Drives → Undisturbed t w w'
  guar t w w' := ∀ u, u ≠ t → u.Drives → ¬ t.Excludes u → Undisturbed u w w'
  pre t o w := Disciplined t o w ∧ Placed t o w
  post t w := t = .hardware → w.Settled

theorem mmio_steady : mmio.Steady where
  refl t w _ := .refl t w
  trans _ _ _ _ h₁ h₂ ht := (h₁ ht).trans (h₂ ht)

/-! ## Steps -/

/-- Operations that leave the card, its pointers and its mappings as they are. -/
def Op.LeavesBlocks : Op → Prop
  | store f => ∀ c, (f c).card = c.card
  | mapIoSpace _ _ | unmapIoSpace _ _ => False
  | _ => True

theorem ResetFrame.blocks {f : DeviceContext → DeviceContext} (h : ResetFrame f)
    (c : DeviceContext) : (f c).card = c.card := by
  rw [h c]
  rfl

theorem ArcFrame.needs {f : DeviceContext → DeviceContext} (h : ArcFrame f)
    (c : DeviceContext) : (f c).needsHwInit = c.needsHwInit := by
  rw [h c]

theorem RestrictFrame.route {f : DeviceContext → DeviceContext} (h : RestrictFrame f)
    (c : DeviceContext) : (f c).arcRoute = c.arcRoute := by
  rw [(h c).1]

theorem QuietFrame.verified {f : DeviceContext → DeviceContext} (h : QuietFrame f)
    (c : DeviceContext) : (f c).sysmemVerified = c.sysmemVerified := by
  rw [h c]

theorem exec_sameBlocks {t : Tid} {o : Op} {e : Choice} {w w' : World} {x : o.Ans}
    (ho : o.LeavesBlocks) (he : w.exec t o e = some (x, w')) : w.SameBlocks w' := by
  have hf := World.exec_frame he
  have hio : w'.ioMaps = w.ioMaps := hf.ioMaps fun hm => by
    cases o <;> first | exact hm | exact ho
  refine ⟨?_, hio⟩
  rw [hf.ctx]
  cases o with
  | store f => exact ho w.ctx
  | locked s =>
    rw [Op.effect, Section.run_frame w.ctx s]
    rfl
  | _ => rfl

/-- A step that leaves the blocks is within what the threads it may meet rely on. -/
theorem exec_guar {t : Tid} {o : Op} {e : Choice} {w w' : World} {x : o.Ans}
    (he : w.exec t o e = some (x, w')) (hs : w.SameBlocks w')
    (hneeds : w'.ctx.needsHwInit = w.ctx.needsHwInit ∨ t = .ioctl ∧ w.arcLock = some t)
    (hverified : w'.ctx.sysmemVerified = w.ctx.sysmemVerified ∨ w.arcLock = some t)
    (hroute : t.Drives ∨ w'.ctx.arcRoute = w.ctx.arcRoute) : mmio.guar t w w' := by
  have hf := World.exec_frame he
  intro u hu hd hx
  -- what changes only under ArcLock does not change for another holder
  have hother : w.arcLock = some t → w.arcLock = some u → False := by
    intro ht hu'
    rw [ht] at hu'
    exact hu (Option.some.inj hu').symm
  refine ⟨hs, hf.started, fun l hl => World.exec_holder he hu hl, fun hn => ?_, fun hl => ?_, ?_, ?_⟩
  · rcases hneeds with hsame | ⟨rfl, hlock⟩
    · exact hsame
    · rcases hn with rfl | hn
      · exact absurd rfl hu
      · exact (hother hlock hn).elim
  · exact hverified.resolve_right fun hlock => hother hlock hl
  · rw [hf.hist, Function.update_of_ne hu]
  · rintro rfl
    exact hroute.resolve_left fun ht => hx (.inr ⟨rfl, ht⟩)

/-- A step that leaves the blocks, and discovers the aperture only when it is mapped. -/
theorem exec_mmioInv {t : Tid} {o : Op} {e : Choice} {w w' : World} {x : o.Ans} {L : Tid → Prop}
    (he : w.exec t o e = some (x, w')) (hinv : MmioInv L w) (hs : w.SameBlocks w')
    (hroute : w.Ready → w'.ctx.arcRoute = .axi → w.ctx.ptr .arcApbAxi ≠ none) : MmioInv L w' := by
  have hf := World.exec_frame he
  have hmapped : ∀ p, w'.Mapped p ↔ w.Mapped p := fun p => by
    rw [World.Mapped, World.Mapped, hs.ioMaps]
  have hready : w.Ready → w'.Ready := by
    intro h
    refine ⟨fun b hb => ?_, ?_, fun hr => ?_⟩
    · rw [hs.ptr] at hb ⊢
      exact (hmapped _).mpr (h.mapped b hb)
    · rw [hs.ptr]
      exact h.apart
    · rw [hs.ptr]
      exact hroute h hr
  refine ⟨hinv.alone, fun hl => ⟨hready (hinv.settled hl).ready, fun hst => ?_⟩⟩
  rw [hf.started] at hst
  have hbare := (hinv.settled hl).bare hst
  refine ⟨fun b => by rw [hs.ptr]; exact hbare.ptr b, fun hr => ?_⟩
  exact hroute hbare.ready hr (hbare.ptr _)

/-! ## On the card -/

/-- The card is `card`, and its blocks are mapped where their pointers are not NULL. -/
structure OnCard (card : Card) (w : World) : Prop where
  known : w.ctx.card = card
  mapped : ∀ b, card.ptr b ≠ none → w.Mapped (card.ptr b)

/-- The hardware is there; ArcLock is held if `held`, and no reset is in flight if `clear`. -/
structure Holding (held clear : Prop) (t : Tid) (card : Card) (w : World) : Prop where
  onCard : OnCard card w
  lock : held → w.arcLock = some t
  needs : clear → w.ctx.needsHwInit = false

theorem OnCard.ptr {card : Card} {w : World} (h : OnCard card w) : w.ctx.ptr = card.ptr :=
  congrArg Card.ptr h.known

theorem OnCard.same {card : Card} {w w' : World} (h : OnCard card w)
    (hs : w.SameBlocks w') : OnCard card w' := by
  refine ⟨hs.card.trans h.known, fun b hb => ?_⟩
  rw [World.Mapped, hs.ioMaps]
  exact h.mapped b hb

theorem Tid.Works.drives {t : Tid} (h : t.Works) : t.Drives := by
  rcases h with rfl | rfl <;> trivial

theorem stable_holding {held clear : Prop} {t : Tid} {card : Card} (ht : t.Works)
    (hclear : clear → held ∨ t = .ioctl) : mmio.Stable t (Holding held clear t card) := by
  intro w w' hr h
  have hu : Undisturbed t w w' := hr ht.drives
  refine ⟨h.onCard.same hu.toSameBlocks, fun hh => hu.lock .arc (h.lock hh), fun hc => ?_⟩
  exact (hu.needs ((hclear hc).symm.imp_right h.lock)).trans (h.needs hc)

/-- While a request or a power callback runs, the blocks are mapped. -/
theorem ready_of_works {t : Tid} {L : Tid → Prop} {w : World} (ht : t.Works) (hl : L t)
    (hinv : MmioInv L w) : w.Ready := by
  refine (hinv.settled fun hh => ?_).ready
  have hn := hinv.alone hh
  rcases ht with rfl | rfl
  · exact hn.1 hl
  · exact hn.2 hl

/-- What a load shows: the card, and the aperture mapped if it is the route. -/
def seen (card : Card) : Answers := fun o x =>
  match o, x with
  | .load, c => c.card = card ∧ (c.arcRoute = .axi → card.ptr .arcApbAxi ≠ none)
  | _, _ => True

/-- What a step of a thread at work changes of the flags and the route. -/
structure Op.Steady (o : Op) (held clear : Prop) (t : Tid) (w : World) : Prop where
  blocks : o.LeavesBlocks
  arc : ¬ o.movesLock .arc ∨ ¬ held
  needs : (o.effect w.ctx).needsHwInit = w.ctx.needsHwInit ∨ held ∧ t = .ioctl ∧ ¬ clear
  verified : (o.effect w.ctx).sysmemVerified = w.ctx.sysmemVerified ∨ held
  route : w.Ready → (o.effect w.ctx).arcRoute = .axi → w.ctx.ptr .arcApbAxi ≠ none

/-- Operations that leave the flags, the route and ArcLock. -/
theorem Op.Steady.of_idle {o : Op} {held clear : Prop} {t : Tid} {w : World}
    (hctx : o.effect w.ctx = w.ctx) (hblocks : o.LeavesBlocks)
    (harc : ¬ o.movesLock .arc ∨ ¬ held) : o.Steady held clear t w :=
  ⟨hblocks, harc, .inl (by rw [hctx]), .inl (by rw [hctx]), fun h hr => h.route (by rwa [hctx] at hr)⟩

theorem Op.Steady.of_plain {o : Op} {held clear : Prop} {t : Tid} {w : World} (h : o.plain) :
    o.Steady held clear t w := by
  apply Op.Steady.of_idle
  · cases o <;> first | rfl | exact (h : False).elim
  · cases o <;> trivial
  · cases o <;> first | exact .inl id | exact (h : False).elim

theorem Op.Steady.of_section {s : Section} {held clear : Prop} {t : Tid} {w : World} :
    (Op.locked s).Steady held clear t w := by
  have hframe := Section.run_frame w.ctx s
  refine ⟨trivial, .inl id, .inl ?_, .inl ?_, fun h hr => h.route ?_⟩
  · rw [Op.effect, hframe]
  · rw [Op.effect, hframe]
  · rw [Op.effect, hframe] at hr
    exact hr

/-- A step of a thread at work. -/
theorem holding_step {held clear : Prop} {t : Tid} {card : Card} {o : Op} {e : Choice}
    {w w' : World} {x : o.Ans} {L : Tid → Prop} (ht : t.Works) (hl : L t)
    (he : w.exec t o e = some (x, w')) (hinv : MmioInv L w) (hw : Holding held clear t card w)
    (ho : o.Steady held clear t w) :
    MmioInv L w' ∧ mmio.guar t w w' ∧ Holding held clear t card w' ∧ seen card o x := by
  have hf := World.exec_frame he
  have hs := exec_sameBlocks ho.blocks he
  have hneeds := ho.needs
  have hverified := ho.verified
  have hroute := ho.route
  rw [← hf.ctx] at hneeds hverified hroute
  refine ⟨exec_mmioInv he hinv hs hroute, ?_, ⟨hw.onCard.same hs, fun hh => ?_, fun hc => ?_⟩, ?_⟩
  · exact exec_guar he hs (hneeds.imp_right fun h => ⟨h.2.1, hw.lock h.1⟩)
      (hverified.imp_right hw.lock) (.inl ht.drives)
  · have hkeep := hf.arcLock (ho.arc.resolve_right (not_not.mpr hh))
    exact hkeep.trans (hw.lock hh)
  · have hsame := hneeds.resolve_right fun h => h.2.2 hc
    exact hsame.trans (hw.needs hc)
  · cases o with
    | load =>
      have he : World.exec t .load e w = some (x, w') := he
      obtain ⟨w₁, hs, -⟩ := World.exec_step he
      obtain ⟨rfl, -⟩ := Prod.mk.inj (Option.some.inj hs)
      have hready := ready_of_works ht hl hinv
      exact ⟨hw.onCard.known, fun hr => hw.onCard.ptr ▸ hready.route hr⟩
    | _ => trivial

/-- A program of a thread at work, whose assertion `P` includes `Holding`. -/
theorem work_within {held clear : Prop} {t : Tid} {card : Card} {K : Op → Prop}
    {P : World → Prop} (ht : t.Works) (hstable : mmio.Stable t P)
    (hholding : ∀ w, P w → Holding held clear t card w)
    (hpre : ∀ o, K o → ∀ w, P w → Disciplined t o w ∧ Placed t o w)
    (hsteady : ∀ o, K o → ∀ w, P w → o.Steady held clear t w)
    (hkeep : ∀ o, K o → ∀ {e x w w'}, w.exec t o e = some (x, w') → P w →
      Holding held clear t card w' → P w')
    {α : Type} {p : Drv α} (hp : p.Within (seen card) K) : mmio.Keeps driverMachine t P p := by
  refine Keeps.of_within hstable (fun o ho w hw _ => hpre o ho w hw) ?_ hp
  intro o ho w L e x w' hw hl hinv _ he
  obtain ⟨hinv', hguar, hw', hseen⟩ := holding_step ht hl he hinv (hholding w hw) (hsteady o ho w hw)
  exact ⟨hinv', hguar, hkeep o ho he hw hw', hseen⟩

/-! ## Off the device -/

/-- Code that leaves the device alone; it may restrict or release it if `restricts`. -/
def offDevice (held restricts : Prop) : Op → Prop
  | .mmioRead _ _ | .mmioWrite _ _ _ | .mapIoSpace _ _ | .unmapIoSpace _ _ => False
  | .acquire l | .release l => l ≠ .arc ∨ ¬ held
  | .setBusData _ _ => held ∧ restricts
  | .store f => held ∧ (f = unverify ∨ restricts ∧ RestrictFrame f)
  | _ => True

theorem offDevice_of_plain {held restricts : Prop} {o : Op} (h : o.plain) :
    offDevice held restricts o := by
  cases o <;> trivial

theorem restrictFrame_unverify : RestrictFrame unverify := fun _ => ⟨rfl, nofun⟩

/-- A placed store of a thread that is not a hardware callback is one of the reset ioctls or of
the code under ArcLock. -/
theorem Placed.reset {t : Tid} {f : DeviceContext → DeviceContext} {w : World}
    (h : Placed t (.store f) w) (ht : t ≠ .hardware) : ResetFrame f := by
  rcases h with ⟨-, -, hquiet | rfl | ⟨-, hrestrict⟩ | ⟨harc, -⟩⟩ | ⟨hhw, -⟩
  · exact hquiet.arc.reset
  · exact restrictFrame_unverify.reset
  · exact hrestrict.reset
  · exact harc.reset
  · exact absurd hhw ht

/-- It leaves the pointer to the block and the owners. -/
theorem Placed.same {t : Tid} {f : DeviceContext → DeviceContext} {w : World}
    (h : Placed t (.store f) w) (ht : t ≠ .hardware) :
    (f w.ctx).card = w.ctx.card ∧ (f w.ctx).tlbOwner = w.ctx.tlbOwner :=
  ⟨(h.reset ht).blocks w.ctx, ((h.reset ht).table w.ctx).2.1⟩

theorem offDevice_steady {held restricts clear : Prop} {t : Tid} {o : Op} {w : World}
    (hrestricts : restricts → held ∧ t = .ioctl ∧ ¬ clear) (ho : offDevice held restricts o) :
    o.Steady held clear t w := by
  cases o with
  | store f =>
    obtain ⟨hheld, rfl | ⟨hr, hf⟩⟩ := ho
    · exact ⟨fun _ => rfl, .inl id, .inl rfl, .inr hheld, fun h hr => h.route hr⟩
    · refine ⟨hf.reset.blocks, .inl id, .inr (hrestricts hr), .inr hheld, fun h hx => h.route ?_⟩
      rwa [Op.effect, hf.route] at hx
  | locked s => exact .of_section
  | acquire l => exact .of_idle rfl trivial ho
  | release l => exact .of_idle rfl trivial ho
  | mmioRead | mmioWrite | mapIoSpace | unmapIoSpace => exact (ho : False).elim
  | _ => exact .of_idle rfl trivial (.inl id)

theorem offDevice_pre {held restricts clear : Prop} {t : Tid} {card : Card} {o : Op} {w : World}
    (ht : t.Works) (hrestricts : restricts → held ∧ t = .ioctl ∧ ¬ clear)
    (ho : offDevice held restricts o) (hw : Holding held clear t card w) :
    Disciplined t o w ∧ Placed t o w := by
  refine ⟨disciplined_of_no_register ?_, ?_⟩
  · cases o <;> first | rfl | exact (ho : False).elim
  · cases o with
    | store f =>
      obtain ⟨hheld, hf⟩ := ho
      refine .inl ⟨ht, hw.lock hheld, ?_⟩
      rcases hf with rfl | ⟨hr, hf⟩
      · exact .inr (.inl rfl)
      · exact .inr (.inr (.inl ⟨(hrestricts hr).2.1, hf⟩))
    | setBusData off data =>
      obtain ⟨hheld, rfl, -⟩ := hrestricts ho.2
      exact ⟨rfl, hw.lock hheld⟩
    | mmioWrite => exact (ho : False).elim
    | _ => trivial

theorem off_keeps (restricts : Prop) {held clear : Prop} {t : Tid} {card : Card} (ht : t.Works)
    (hclear : clear → held ∨ t = .ioctl) (hrestricts : restricts → held ∧ t = .ioctl ∧ ¬ clear)
    {α : Type} {p : Drv α} (hp : p.Only (offDevice held restricts)) :
    mmio.Keeps driverMachine t (Holding held clear t card) p :=
  work_within ht (stable_holding ht hclear) (fun _ h => h)
    (fun _ ho _ hw => offDevice_pre ht hrestricts ho hw)
    (fun _ ho _ _ => offDevice_steady hrestricts ho) (fun _ _ _ _ _ _ _ _ h => h) hp.within

theorem plain_keeps {held clear : Prop} {t : Tid} {card : Card} (ht : t.Works)
    (hclear : clear → held ∨ t = .ioctl) {α : Type} {p : Drv α} (hp : p.Only Op.plain) :
    mmio.Keeps driverMachine t (Holding held clear t card) p :=
  off_keeps False ht hclear False.elim (hp.mono fun _ => offDevice_of_plain)

theorem configScope_offDevice : ConfigScope (offDevice True True) where
  plain _ := offDevice_of_plain
  setBusData _ _ _ := ⟨trivial, trivial⟩
  setFileGen _ _ := trivial
  store _ hf := ⟨trivial, .inr ⟨trivial, hf⟩⟩

/-! ## On the device -/

/-- Accesses through the blocks of the card, and what the code under ArcLock records; the
iATU and the verdict of the arm path only while `arming`. -/
def workFoot (card : Card) (arming : Prop) : Op → Prop
  | .mmioRead p _ => p ≠ none ∧ ∃ b, card.ptr b = p
  | .mmioWrite p off _ => p ≠ none ∧ ((p = card.ptr .tlbRegs ∧ WindowReg kernelTlbIndex off) ∨
      p = card.ptr .kernelTlb ∨ p = card.ptr .arcApbAxi ∨ (arming ∧ p = card.ptr .bar2Iatu))
  | .bufferWrite _ _ => arming
  | .store f => (QuietFrame f ∨ (arming ∧ ArcFrame f ∧
      ∀ c, (f c).sysmemVerified = c.sysmemVerified)) ∧
      ∀ c, (c.arcRoute = .axi → card.ptr .arcApbAxi ≠ none) →
        (f c).arcRoute = .axi → card.ptr .arcApbAxi ≠ none
  | o => o.plain

theorem mapped_of_seen {card : Card} {b : RegBlock}
    (h : SeenMapped (seen card) fun c => c.ptr b) : card.ptr b ≠ none := by
  obtain ⟨c, hc, hne⟩ := h
  rw [← hc.1]
  exact hne

theorem axi_of_seen {card : Card} (h : SeenAxi (seen card)) :
    card.ptr .arcApbAxi ≠ none := by
  obtain ⟨c, hc, hne | hr⟩ := h
  · exact mapped_of_seen (b := .arcApbAxi) ⟨c, hc, hne⟩
  · exact hc.2 hr

/-- A pointer a load shows is the card's. -/
theorem ptr_of_seen {card : Card} {c : DeviceContext} (hc : seen card .load c) (b : RegBlock)
    (hb : card.ptr b ≠ none) : c.ptr b ≠ none ∧ c.ptr b = card.ptr b := by
  have hp : c.ptr b = card.ptr b := congrFun (congrArg Card.ptr hc.1) b
  exact ⟨hp ▸ hb, hp⟩

theorem mailScope_workFoot (card : Card) (arming : Prop) :
    MailScope (seen card) (workFoot card arming) where
  silent o ho := by cases o <;> first | exact ho | exact (ho : False).elim
  route r hr := ⟨.inl fun _ => rfl, fun c _ hr' => axi_of_seen (hr hr')⟩
  regs h c hc off ho := by
    obtain ⟨hne, hp⟩ := ptr_of_seen hc .tlbRegs (mapped_of_seen (b := .tlbRegs) h)
    exact ⟨⟨hne, .tlbRegs, hp.symm⟩, fun _ => ⟨hne, .inl ⟨hp, ho⟩⟩⟩
  window h c hc off := by
    obtain ⟨hne, hp⟩ := ptr_of_seen hc .kernelTlb (mapped_of_seen (b := .kernelTlb) h)
    exact ⟨⟨hne, .kernelTlb, hp.symm⟩, fun _ => ⟨hne, .inr (.inl hp)⟩⟩
  axi h c hc off := by
    obtain ⟨hne, hp⟩ := ptr_of_seen hc .arcApbAxi (axi_of_seen h)
    exact ⟨⟨hne, .arcApbAxi, hp.symm⟩, fun _ => ⟨hne, .inr (.inr (.inl hp))⟩⟩

theorem readsIatu_workFoot (card : Card) (arming : Prop) :
    ReadsIatu (seen card) (workFoot card arming) := by
  intro h c hc _
  obtain ⟨hne, hp⟩ := ptr_of_seen hc .bar2Iatu (mapped_of_seen (b := .bar2Iatu) h)
  exact ⟨hne, .bar2Iatu, hp.symm⟩

theorem arcScope_workFoot (card : Card) : ArcScope (seen card) (workFoot card True) where
  toMailScope := mailScope_workFoot card True
  store f hf hr hv _ := ⟨.inr ⟨trivial, hf, hv⟩, fun c hc hr' => hc ((hr c).symm.trans hr')⟩
  iatu h c hc off := by
    obtain ⟨hne, hp⟩ := ptr_of_seen hc .bar2Iatu (mapped_of_seen (b := .bar2Iatu) h)
    exact ⟨⟨hne, .bar2Iatu, hp.symm⟩, fun _ => ⟨hne, .inr (.inr (.inr ⟨trivial, hp⟩))⟩⟩
  nocId h c hc off := by
    obtain ⟨hne, hp⟩ := ptr_of_seen hc .nocIdRegs (mapped_of_seen (b := .nocIdRegs) h)
    exact ⟨hne, .nocIdRegs, hp.symm⟩

/-- Under ArcLock with no reset in flight; while `arming`, no buffer is advertised. -/
def Working (arming : Prop) (t : Tid) (card : Card) (w : World) : Prop :=
  Holding True True t card w ∧ (arming → w.ctx.sysmemVerified = false)

theorem stable_working {arming : Prop} {t : Tid} {card : Card} (ht : t.Works) :
    mmio.Stable t (Working arming t card) := by
  intro w w' hr hw
  have hu : Undisturbed t w w' := hr ht.drives
  refine ⟨stable_holding ht (fun _ => .inl trivial) w w' hr hw.1, fun ha => ?_⟩
  rw [hu.verified (hw.1.lock trivial)]
  exact hw.2 ha

theorem work_keeps (arming : Prop) {t : Tid} {card : Card} (ht : t.Works) {α : Type} {p : Drv α}
    (hp : p.Within (seen card) (workFoot card arming)) :
    mmio.Keeps driverMachine t (Working arming t card) p := by
  have hverified : ∀ {f : DeviceContext → DeviceContext}, workFoot card arming (.store f) →
      ∀ c, (f c).sysmemVerified = c.sysmemVerified := by
    intro f hf
    exact hf.1.elim QuietFrame.verified fun h => h.2.2
  have harc : ∀ {f : DeviceContext → DeviceContext}, workFoot card arming (.store f) → ArcFrame f :=
    fun hf => hf.1.elim QuietFrame.arc fun h => h.2.1
  refine work_within ht (stable_working ht) (fun _ hw => hw.1) (fun o ho w hw => ⟨?_, ?_⟩)
    (fun o ho w hw => ?_) (fun o ho {e x w w'} he hw hw' => ⟨hw', fun ha => ?_⟩) hp
  · have haccess : ∀ {p : IoPtr}, p ≠ none → (∃ b, card.ptr b = p) →
        (∃ b, w.ctx.ptr b = p) ∧ w.Mapped p := by
      rintro p hne ⟨b, rfl⟩
      exact ⟨⟨b, congrFun hw.1.onCard.ptr b⟩, hw.1.onCard.mapped b hne⟩
    have hdone : ∀ {p : IoPtr}, p ≠ none → (∃ b, card.ptr b = p) → ∀ off, (∃ b, w.ctx.ptr b = p) ∧
        w.Mapped p ∧ (w.ctx.needsHwInit = false ∨ t = .ioctl ∧ w.ctx.IsReadback p off ∧
          RecoveryChecked w.ctx.vendorId (w.hist .ioctl)) := fun hne hb off =>
      ⟨(haccess hne hb).1, (haccess hne hb).2, .inl (hw.1.needs trivial)⟩
    cases o with
    | mmioRead p off =>
      intro p' off' hr
      obtain ⟨rfl, rfl⟩ := Prod.mk.inj (Option.some.inj hr)
      exact hdone ho.1 ho.2 off
    | mmioWrite p off v =>
      intro p' off' hr
      obtain ⟨rfl, rfl⟩ := Prod.mk.inj (Option.some.inj hr)
      refine hdone ho.1 ?_ off
      rcases ho.2 with ⟨rfl, -⟩ | rfl | rfl | ⟨-, rfl⟩ <;> exact ⟨_, rfl⟩
    | _ => exact disciplined_of_no_register rfl
  · cases o with
    | mmioWrite p off v =>
      refine .inl ⟨hw.1.lock trivial, ?_⟩
      rw [DeviceContext.ArcWrite, hw.1.onCard.ptr]
      refine ho.2.imp_right (Or.imp_right (Or.imp_right fun h => ?_))
      exact ⟨h.2, hw.2 h.1⟩
    | store f =>
      refine .inl ⟨ht, hw.1.lock trivial, ?_⟩
      rcases ho.1 with hf | ⟨ha, hf, -⟩
      · exact .inl hf
      · exact .inr (.inr (.inr ⟨hf, hw.2 ha, hw.1.needs trivial⟩))
    | setBusData => exact (ho : False).elim
    | _ => trivial
  · cases o with
    | store f =>
      refine ⟨(harc ho).reset.blocks, .inl id, .inl ((harc ho).needs _), .inl (hverified ho _), ?_⟩
      intro hready hr
      rw [hw.1.onCard.ptr]
      exact ho.2 w.ctx (fun hr' => hw.1.onCard.ptr ▸ hready.route hr') hr
    | mmioRead | mmioWrite | bufferWrite => exact .of_idle rfl trivial (.inl id)
    | _ => exact .of_plain ho
  · rw [(World.exec_frame he).ctx]
    cases o with
    | store f => exact (hverified ho _).trans (hw.2 ha)
    | locked s => exact (ho : False).elim
    | _ => exact hw.2 ha

/-- CONFIGURE_TLB writes its registers under StateLock; the dispatcher has found no reset in
flight, and no other thread begins one. -/
def Configuring (card : Card) (w : World) : Prop :=
  Holding False True .ioctl card w ∧ w.stateLock = some .ioctl

theorem stable_configuring {card : Card} : mmio.Stable .ioctl (Configuring card) := by
  intro w w' hr hw
  have hu : Undisturbed .ioctl w w' := hr trivial
  exact ⟨stable_holding (.inl rfl) (fun _ => .inr rfl) w w' hr hw.1, hu.lock .state hw.2⟩

theorem configure_keeps {card : Card} {α : Type} {p : Drv α}
    (hp : p.Within (seen card) fun o => (∃ off v, o = Op.mmioWrite (card.ptr .tlbRegs) off v ∧
      card.ptr .tlbRegs ≠ none) ∨ o = Op.load) :
    mmio.Keeps driverMachine .ioctl (Configuring card) p := by
  refine work_within (.inl rfl) stable_configuring (fun _ hw => hw.1) ?_ ?_ ?_ hp
  · rintro o (⟨off, v, rfl, hne⟩ | rfl) w hw
    · have hp : w.ctx.ptr .tlbRegs = card.ptr .tlbRegs := congrFun hw.1.onCard.ptr _
      refine ⟨?_, .inr ⟨rfl, hw.2, hp.symm⟩⟩
      intro p' off' hr
      obtain ⟨rfl, rfl⟩ := Prod.mk.inj (Option.some.inj hr)
      exact ⟨⟨_, hp⟩, hw.1.onCard.mapped _ hne, .inl (hw.1.needs trivial)⟩
    · exact ⟨disciplined_of_no_register rfl, trivial⟩
  · rintro o (⟨off, v, rfl, -⟩ | rfl) w hw
    · exact .of_idle rfl trivial (.inl id)
    · exact .of_idle rfl trivial (.inl id)
  · rintro o (⟨off, v, rfl, -⟩ | rfl) e x w w' he hw hw'
    · exact ⟨hw', ((World.exec_frame he).stateLock id).trans hw.2⟩
    · exact ⟨hw', ((World.exec_frame he).stateLock id).trans hw.2⟩

/-! ## Under ArcLock -/

section Works

variable {t : Tid} {card : Card} {α : Type}

theorem stable_off (ht : t.Works) : mmio.Stable t (Holding False False t card) :=
  stable_holding ht False.elim

theorem stable_locked (ht : t.Works) : mmio.Stable t (Holding True False t card) :=
  stable_holding ht False.elim

theorem acquire_mmio (ht : t.Works) :
    mmio.Triple driverMachine t (Holding False False t card) (acquire .arc)
      fun _ => Holding True False t card := by
  refine Triple.vis (I := fun _ => Holding True False t card) (stable_off ht)
    (fun w _ _ => ⟨disciplined_of_no_register rfl, trivial⟩) ?_ fun _ => Keeps.pure (stable_locked ht)
  intro w L e x w' hw hl hinv _ he
  have he : World.exec t (.acquire .arc) e w = some (x, w') := he
  obtain ⟨hinv', hguar, hw', -⟩ := holding_step ht hl he hinv hw (.of_idle rfl trivial (.inr id))
  refine ⟨hinv', hguar, hw'.onCard, fun _ => ?_, False.elim⟩
  obtain ⟨w₁, hs, rfl⟩ := World.exec_step he
  simp only [World.step, Option.ite_none_right_eq_some, Option.some.injEq, Prod.mk.injEq] at hs
  obtain ⟨-, -, rfl⟩ := hs
  rfl

theorem release_mmio (ht : t.Works) :
    mmio.Triple driverMachine t (Holding True False t card) (release .arc)
      fun _ => Holding False False t card := by
  have hoff : mmio.Keeps driverMachine t (Holding False False t card) (release .arc) :=
    off_keeps False ht False.elim False.elim ((within_perform _).mpr (.inr id))
  exact Triple.weaken hoff (fun w h => ⟨h.onCard, False.elim, False.elim⟩) fun _ _ h => h

/-- A load settles whether a reset is in flight, and leaves what is known besides. -/
theorem load_clear {held : Prop} {P : World → Prop} (ht : t.Works) (hstable : mmio.Stable t P)
    (hholding : ∀ w, P w → Holding held False t card w)
    (hctx : ∀ w w', w'.ctx = w.ctx → Holding held False t card w' → P w → P w')
    {k : DeviceContext → Drv α} {Q : α → World → Prop}
    (hin : ∀ c, seen card .load c → c.needsHwInit = true → mmio.Triple driverMachine t P (k c) Q)
    (hclear : ∀ c, seen card .load c → c.needsHwInit = false →
      mmio.Triple driverMachine t (fun w => P w ∧ w.ctx.needsHwInit = false) (k c) Q) :
    mmio.Triple driverMachine t P (.vis .load k) Q := by
  refine Triple.vis (I := fun c w => P w ∧ seen card .load c ∧
    w.ctx.needsHwInit = DeviceContext.needsHwInit c) hstable
    (fun w _ _ => ⟨disciplined_of_no_register rfl, trivial⟩) ?_ fun c => ?_
  · intro w L e x w' hw hl hinv _ he
    have he : World.exec t .load e w = some (x, w') := he
    have hsame : w'.ctx = w.ctx := (World.exec_frame he).ctx
    obtain ⟨hinv', hguar, hw', hseen⟩ :=
      holding_step ht hl he hinv (hholding w hw) (.of_plain trivial)
    obtain ⟨w₁, hs, -⟩ := World.exec_step he
    obtain ⟨rfl, -⟩ := Prod.mk.inj (Option.some.inj hs)
    exact ⟨hinv', hguar, hctx w w' hsame hw' hw, hseen, by rw [hsame]⟩
  · refine Triple.assume (φ := seen card .load c) (fun w h => h.2.1) fun hseen => ?_
    cases hneeds : DeviceContext.needsHwInit c with
    | true => exact Triple.weaken (hin c hseen hneeds) (fun w h => h.1) fun _ _ h => h
    | false =>
      exact Triple.weaken (hclear c hseen hneeds) (fun w h => ⟨h.1, h.2.2⟩) fun _ _ h => h

theorem load_mmio (held : Prop) (ht : t.Works)
    {k : DeviceContext → Drv α} {Q : α → World → Prop}
    (hin : ∀ c, seen card .load c → c.needsHwInit = true →
      mmio.Triple driverMachine t (Holding held False t card) (k c) Q)
    (hclear : ∀ c, seen card .load c → c.needsHwInit = false →
      mmio.Triple driverMachine t (Holding held True t card) (k c) Q) :
    mmio.Triple driverMachine t (Holding held False t card) (.vis .load k) Q := by
  refine load_clear ht (stable_holding ht False.elim) (fun _ h => h) (fun _ _ _ h _ => h) hin
    fun c hseen hneeds => ?_
  exact Triple.weaken (hclear c hseen hneeds) (fun w h => ⟨h.1.onCard, h.1.lock, fun _ => h.2⟩)
    fun _ _ h => h

theorem Working.locked {arming : Prop} {w : World} (h : Working arming t card w) :
    Holding True False t card w := ⟨h.1.onCard, h.1.lock, False.elim⟩

/-- Under ArcLock, work on the device goes on only when no reset is in flight. -/
theorem checked_mmio (ht : t.Works) {k : DeviceContext → Drv α}
    (hk : (Prog.vis .load k : Drv α).Within (seen card) (workFoot card False))
    (hrest : ∀ c, c.needsHwInit = true → (k c).Only Op.plain) :
    mmio.Keeps driverMachine t (Holding True False t card) (.vis .load k) := by
  refine load_mmio True ht (fun c _ hneeds => ?_) fun c hseen _ => ?_
  · exact plain_keeps ht False.elim (hrest c hneeds)
  · exact Triple.weaken (work_keeps False ht (hk.2 c hseen)) (fun _ h => ⟨h, False.elim⟩)
      fun _ _ => Working.locked

/-! ## The mailbox and the arm path -/

theorem arcSendLocked_mmio (ht : t.Works) (msg : ArcMsg) :
    mmio.Keeps driverMachine t (Holding True False t card) (arcSendLocked msg) := by
  refine checked_mmio ht (arcSendLocked_within (mailScope_workFoot card False) msg) fun c hc => ?_
  exact Within.ite (fun _ => trivial) fun hn => absurd hc hn

/-- A store that leaves everything but the verified flag, under ArcLock. -/
theorem unverify_only : (store unverify).Only (offDevice True False) :=
  (within_perform _).mpr ⟨trivial, .inl rfl⟩

/-- The verdict of the arm path: up to then, no buffer is advertised. -/
theorem setVerified_mmio (ht : t.Works) (status : NtStatus) :
    mmio.Triple driverMachine t (Working True t card) (setVerified status)
      fun _ => Working False t card := by
  have hend : ∀ w, Working True t card w → Working False t card w := fun _ h => ⟨h.1, False.elim⟩
  refine Triple.ite (fun _ => Triple.pure (stable_working ht) hend) fun _ => ?_
  refine Triple.bind mmio_steady (work_keeps True ht (setStage_within (arcScope_workFoot card) _)) fun _ => ?_
  refine Triple.vis (I := fun _ => Working False t card) (stable_working ht)
    (fun w hw _ => ⟨disciplined_of_no_register rfl, ?_⟩) ?_ fun _ => Keeps.pure (stable_working ht)
  · refine .inl ⟨ht, hw.1.lock trivial, .inr (.inr (.inr ?_))⟩
    exact ⟨fun _ => rfl, hw.2 trivial, hw.1.needs trivial⟩
  · intro w L e x w' hw hl hinv _ he
    have he : World.exec t (.store verify) e w = some (x, w') := he
    obtain ⟨hinv', hguar, hw', -⟩ := holding_step ht hl he hinv hw.1
      ⟨fun _ => rfl, .inl id, .inl rfl, .inr trivial, fun hready hr => hready.route hr⟩
    exact ⟨hinv', hguar, hw', False.elim⟩

theorem armLocked_mmio (ht : t.Works) :
    mmio.Keeps driverMachine t (Holding True False t card) armLocked := by
  refine Triple.vis (I := fun _ w => Holding True False t card w ∧ w.ctx.sysmemVerified = false)
    (stable_locked ht) (fun w hw _ => ⟨disciplined_of_no_register rfl, ?_⟩) ?_ fun _ => ?_
  · exact .inl ⟨ht, hw.lock trivial, .inr (.inl rfl)⟩
  · intro w L e x w' hw hl hinv _ he
    have he : World.exec t (.store unverify) e w = some (x, w') := he
    obtain ⟨hinv', hguar, hw', -⟩ := holding_step ht hl he hinv hw
      (offDevice_steady False.elim (show offDevice True False _ from ⟨trivial, .inl rfl⟩))
    have hctx : w'.ctx = unverify w.ctx := (World.exec_frame he).ctx
    exact ⟨hinv', hguar, hw', by rw [hctx]; rfl⟩
  · have hstable : mmio.Stable t fun w =>
        Holding True False t card w ∧ w.ctx.sysmemVerified = false := by
      intro w w' hr hw
      have hu : Undisturbed t w w' := hr ht.drives
      refine ⟨stable_locked ht w w' hr hw.1, ?_⟩
      rw [hu.verified (hw.1.lock trivial)]
      exact hw.2
    refine load_clear (P := fun w => Holding True False t card w ∧ w.ctx.sysmemVerified = false)
      ht hstable (fun _ h => h.1)
      (fun w w' hctx h hw => ⟨h, by rw [hctx]; exact hw.2⟩) (fun c _ hneeds => ?_) fun c _ hneeds => ?_
    · exact Triple.ite (fun _ => Triple.pure hstable fun _ h => h.1) fun hn => absurd hneeds hn
    · refine Triple.ite (fun hn => absurd hn (by simp [hneeds])) fun _ => ?_
      refine Triple.weaken (P := Working True t card) ?_
        (fun w h => ⟨⟨h.1.1.onCard, h.1.1.lock, fun _ => h.2⟩, fun _ => h.1.2⟩) fun _ _ h => h
      rw [armStages_eq, bind_assoc]
      refine Triple.bind mmio_steady (work_keeps True ht (armChecks_within (arcScope_workFoot card)
        fun _ _ => trivial))
        fun status => Triple.bind mmio_steady (setVerified_mmio ht status) fun status => ?_
      refine Triple.weaken (work_keeps False ht ?_) (fun _ h => h) fun _ _ => Working.locked
      exact ⟨⟨.inl fun _ => rfl, fun _ h => h⟩, fun _ _ => trivial⟩

/-- What a thread at work keeps, region by region. -/
theorem arcRegions_mmio (ht : t.Works) : ArcRegions driverMachine mmio t
    (Holding False False t card) (Holding True False t card) where
  steady := mmio_steady
  plain := plain_keeps ht False.elim
  heldPlain := plain_keeps ht False.elim
  acquire := acquire_mmio ht
  release := release_mmio ht
  mail := arcSendLocked_mmio ht
  arm := armLocked_mmio ht
  unverify := off_keeps False ht False.elim False.elim unverify_only

end Works


/-! ## POST_RESET -/

/-- A request holds ArcLock, and what its call has done so far satisfies `P`. -/
structure Tracked (card : Card) (P : List Event → Prop) (w : World) : Prop where
  holding : Holding True False .ioctl card w
  events : P (w.hist .ioctl)

section Recovery

variable {card : Card} {α : Type}

theorem ioctl_works : Tid.ioctl.Works := .inl rfl

theorem stable_tracked {P : List Event → Prop} : mmio.Stable .ioctl (Tracked card P) := by
  intro w w' hr h
  have hu : Undisturbed .ioctl w w' := hr trivial
  refine ⟨stable_locked ioctl_works w w' hr h.holding, ?_⟩
  rw [hu.hist]
  exact h.events

/-- One operation off the device, remembered. -/
theorem tracked_vis {o : Op} {k : o.Ans → Drv α} {P : List Event → Prop} {Q : α → World → Prop}
    (ho : offDevice True True o)
    (hk : ∀ x, seen card o x → mmio.Triple driverMachine .ioctl
      (Tracked card fun evs => ∃ before, evs = ⟨o, x⟩ :: before ∧ P before) (k x) Q) :
    mmio.Triple driverMachine .ioctl (Tracked card P) (.vis o k) Q := by
  have hrestricts : True → True ∧ Tid.ioctl = .ioctl ∧ ¬ False := fun _ => ⟨trivial, rfl, id⟩
  refine Triple.vis (I := fun x w => seen card o x ∧
    Tracked card (fun evs => ∃ before, evs = ⟨o, x⟩ :: before ∧ P before) w) stable_tracked
    (fun w hw _ => offDevice_pre ioctl_works hrestricts ho hw.holding) ?_ fun x => ?_
  · intro w L e x w' hw hl hinv _ he
    have he : World.exec .ioctl o e w = some (x, w') := he
    obtain ⟨hinv', hguar, hw', hseen⟩ := holding_step ioctl_works hl he hinv hw.holding
      (offDevice_steady hrestricts ho)
    refine ⟨hinv', hguar, hseen, hw', ?_⟩
    rw [(World.exec_frame he).hist, Function.update_self]
    exact ⟨w.hist .ioctl, rfl, hw.events⟩
  · intro w hw
    exact hk x hw.1 w hw.2

theorem Tracked.mono {P P' : List Event → Prop} (h : ∀ evs, P evs → P' evs) {w : World}
    (hw : Tracked card P w) : Tracked card P' w := ⟨hw.holding, h _ hw.events⟩

/-- A program the history of which no longer matters. -/
theorem tracked_forget {P : List Event → Prop} {p : Drv α} {Q : α → World → Prop}
    (h : mmio.Triple driverMachine .ioctl (Holding True False .ioctl card) p Q) :
    mmio.Triple driverMachine .ioctl (Tracked card P) p Q :=
  Triple.weaken h (fun _ hw => hw.holding) fun _ _ hq => hq

theorem savedDword_length (saved : Nat → UInt8) (i : Nat) : (savedDword saved i).length = 4 := by
  simp [savedDword]

/-- Since `P`, the dwords in `done` have been written back, as far as `ok` says. -/
def Restoring (P : List Event → Prop) (saved : Nat → UInt8) (done : Nat → Prop) (ok : Bool)
    (evs : List Event) : Prop :=
  ∃ restore before, evs = restore ++ before ∧ P before ∧
    (ok = true → ∀ i, done i → (⟨.setBusData (i * 4) (savedDword saved i), 4⟩ : Event) ∈ restore)

theorem Restoring.write {P : List Event → Prop} {saved : Nat → UInt8} {done : Nat → Prop}
    {ok : Bool} {evs : List Event} (h : Restoring P saved done ok evs) (i n : Nat) :
    Restoring P saved (fun j => j = i ∨ done j) (ok && n == (savedDword saved i).length)
      (⟨.setBusData (i * 4) (savedDword saved i), n⟩ :: evs) := by
  obtain ⟨restore, before, rfl, hP, hdone⟩ := h
  refine ⟨_ :: restore, before, rfl, hP, fun hok j hj => ?_⟩
  rw [Bool.and_eq_true, beq_iff_eq, savedDword_length] at hok
  obtain ⟨hok, rfl⟩ := hok
  rcases hj with rfl | hj
  · exact List.mem_cons_self
  · exact List.mem_cons_of_mem _ (hdone hok j hj)

theorem restoreDwords_mmio {P : List Event → Prop} (saved : Nat → UInt8) (is : List Nat)
    (done : Nat → Prop) (ok : Bool) :
    mmio.Triple driverMachine .ioctl (Tracked card (Restoring P saved done ok))
      (restoreDwords saved ok is)
      fun ok' => Tracked card (Restoring P saved
        (fun j => done j ∨ (j ∈ is ∧ j ≠ pciCfgCommand / 4)) ok') := by
  induction is generalizing done ok with
  | nil =>
    refine Triple.pure stable_tracked fun w hw => hw.mono fun evs h => ?_
    obtain ⟨restore, before, rfl, hP, hdone⟩ := h
    exact ⟨restore, before, rfl, hP, fun hok j hj => hdone hok j (hj.resolve_right (by simp))⟩
  | cons i is ih =>
    -- a dword already written, or written in the rest of the loop
    have hlater : ∀ {done' : Nat → Prop} {ok' : Bool} {w : World},
        (∀ j, done j ∨ (j ∈ i :: is ∧ j ≠ pciCfgCommand / 4) →
          done' j ∨ (j ∈ is ∧ j ≠ pciCfgCommand / 4)) →
        Tracked card (Restoring P saved (fun j => done' j ∨ (j ∈ is ∧ j ≠ pciCfgCommand / 4)) ok') w →
        Tracked card (Restoring P saved
          (fun j => done j ∨ (j ∈ i :: is ∧ j ≠ pciCfgCommand / 4)) ok') w := by
      intro done' ok' w hsub hw
      refine hw.mono fun evs h => ?_
      obtain ⟨restore, before, rfl, hP, hdone⟩ := h
      exact ⟨restore, before, rfl, hP, fun hok j hj => hdone hok j (hsub j hj)⟩
    rw [restoreDwords]
    split
    · rename_i hcommand
      refine Triple.weaken (ih done ok) (fun _ h => h) fun ok' w hw => hlater (fun j hj => ?_) hw
      rcases hj with hj | ⟨hj, hne⟩
      · exact .inl hj
      · rcases List.mem_cons.mp hj with rfl | hj
        · exact absurd hcommand hne
        · exact .inr ⟨hj, hne⟩
    · refine tracked_vis ⟨trivial, trivial⟩ fun n _ => ?_
      refine Triple.weaken (ih (fun j => j = i ∨ done j) _) (fun w hw => ?_)
        fun ok' w hw => hlater (fun j hj => ?_) hw
      · refine hw.mono fun evs h => ?_
        obtain ⟨before, rfl, h⟩ := h
        exact h.write i n
      · rcases hj with hj | ⟨hj, hne⟩
        · exact .inl (.inr hj)
        · rcases List.mem_cons.mp hj with rfl | hj
          · exact .inl (.inl rfl)
          · exact .inr ⟨hj, hne⟩

/-- The restore reports success only when every dword has been written in full. -/
theorem resetRestoreConfig_mmio {P : List Event → Prop} (saved : Nat → UInt8) :
    mmio.Triple driverMachine .ioctl (Tracked card P) (resetRestoreConfig saved)
      fun ok => Tracked card fun evs => ∃ restore before, evs = restore ++ before ∧ P before ∧
        (ok = true → Restored saved restore) := by
  have hloop : mmio.Triple driverMachine .ioctl (Tracked card P)
      (restoreDwords saved true (List.range (pciCfgSaveBytes / 4))) fun ok => Tracked card
        (Restoring P saved (fun j => False ∨ (j ∈ List.range (pciCfgSaveBytes / 4) ∧
          j ≠ pciCfgCommand / 4)) ok) :=
    Triple.weaken (restoreDwords_mmio saved _ (fun _ => False) true)
      (fun w hw => hw.mono fun evs h => ⟨[], evs, rfl, h, fun _ j hj => hj.elim⟩) fun _ _ h => h
  refine Triple.bind mmio_steady hloop fun ok => tracked_vis ⟨trivial, trivial⟩ fun n _ => ?_
  refine Triple.pure stable_tracked fun w hw => hw.mono fun evs h => ?_
  obtain ⟨rest, rfl, h⟩ := h
  obtain ⟨restore, before, heq, hP, hdone⟩ := h.write (pciCfgCommand / 4) n
  refine ⟨restore, before, heq, hP, fun hok i hi => hdone hok i ?_⟩
  by_cases hcommand : i = pciCfgCommand / 4
  · exact .inl hcommand
  · exact .inr (.inr ⟨List.mem_range.mpr hi, hcommand⟩)

/-- The readback: the kernel window's own registers, and nothing else. -/
def gateFoot (card : Card) : Op → Prop
  | .mmioRead p off | .mmioWrite p off _ =>
    p ≠ none ∧ p = card.ptr .tlbRegs ∧ WindowReg kernelTlbIndex off
  | o => o.silent

/-- The kernel window has no strided register. -/
theorem kernelReg_bounds {off : Nat} (h : WindowReg kernelTlbIndex off) :
    kernelTlbIndex * tlbRegSize ≤ off ∧ off < (kernelTlbIndex + 1) * tlbRegSize := by
  have hstrided : ¬ kernelTlbIndex < tlbStridedCount := by decide
  simp only [WindowReg, hstrided, false_and, or_false] at h
  simp only [kernelTlbIndex, tlb2mCount, tlbRegSize] at h ⊢
  omega

theorem gate_keeps {p : Drv α} (hp : p.Within (seen card) (gateFoot card)) :
    mmio.Keeps driverMachine .ioctl (Tracked card (RecoveryChecked card.vendorId)) p := by
  refine work_within ioctl_works stable_tracked (fun _ hw => hw.holding) (fun o ho w hw => ⟨?_, ?_⟩)
    (fun o ho w hw => ?_) (fun o ho {e x w w'} he hw hw' => ⟨hw', ?_⟩) hp
  · have hptr : w.ctx.ptr .tlbRegs = card.ptr .tlbRegs := congrFun hw.holding.onCard.ptr _
    have hvendor : w.ctx.vendorId = card.vendorId := congrArg Card.vendorId hw.holding.onCard.known
    cases o with
    | mmioRead p off | mmioWrite p off _ =>
      intro p' off' hr
      obtain ⟨rfl, rfl⟩ := Prod.mk.inj (Option.some.inj hr)
      obtain ⟨hne, rfl, hreg⟩ := ho
      obtain ⟨hlo, hhi⟩ := kernelReg_bounds hreg
      refine ⟨⟨.tlbRegs, hptr⟩, hw.holding.onCard.mapped _ hne, .inr ⟨rfl, ?_, ?_⟩⟩
      · exact ⟨hptr.symm, hlo, hhi⟩
      · rw [hvendor]
        exact hw.events
    | _ => exact disciplined_of_no_register rfl
  · cases o with
    | mmioWrite p off v =>
      refine .inl ⟨hw.holding.lock trivial, .inl ⟨?_, ho.2.2⟩⟩
      rw [hw.holding.onCard.ptr]
      exact ho.2.1
    | setBusData | store => exact (ho : False).elim
    | _ => trivial
  · cases o with
    | mmioRead | mmioWrite => exact .of_idle rfl trivial (.inl id)
    | _ => exact .of_plain (Op.silent.plain ho)
  · rw [(World.exec_frame he).hist, Function.update_self]
    exact hw.events.cons _

theorem kernelTlbSanityCheck_gate (hne : card.ptr .tlbRegs ≠ none) :
    kernelTlbSanityCheck.Within (seen card) (gateFoot card) := by
  refine kernelTlbSanityCheck_within trivial fun c hc off ho => ?_
  obtain ⟨hregs, hp⟩ := ptr_of_seen hc .tlbRegs hne
  exact ⟨⟨hregs, hp, ho⟩, fun _ => ⟨hregs, hp, ho⟩⟩

theorem recoverReset_mmio :
    mmio.Keeps driverMachine .ioctl (Holding True False .ioctl card) recoverReset := by
  have hdone : ∀ {P : List Event → Prop} (r : NtStatus × Bool),
      mmio.Triple driverMachine .ioctl (Tracked card P) (Pure.pure r)
        fun _ => Holding True False .ioctl card :=
    fun r => tracked_forget (Keeps.pure (stable_locked ioctl_works))
  refine Triple.weaken (P := Tracked card fun _ => True) ?_ (fun w hw => ⟨hw, trivial⟩) fun _ _ h => h
  refine tracked_vis trivial fun c₀ _ => Triple.ite (fun _ => hdone _) fun _ => ?_
  refine tracked_vis trivial fun c₁ hc₁ => Triple.ite (fun _ => hdone _) fun hready => ?_
  have hne : card.ptr .tlbRegs ≠ none := fun hn =>
    hready (.inl ((congrFun (congrArg Card.ptr hc₁.1) .tlbRegs).trans hn))
  -- the vendor ID
  refine tracked_vis trivial fun idData _ => tracked_vis trivial fun c₂ hc₂ => ?_
  refine Triple.ite (fun _ => hdone _) fun hpresent => ?_
  -- the parity marker
  refine tracked_vis trivial fun cmdData _ => Triple.ite (fun _ => hdone _) fun hfull => ?_
  refine Triple.ite (fun _ => hdone _) fun hparity => ?_
  -- the restore
  refine tracked_vis trivial fun c₃ _ => ?_
  refine Triple.bind (p := resetRestoreConfig (DeviceContext.savedConfig c₃)) mmio_steady
    (resetRestoreConfig_mmio _) fun ok => ?_
  refine Triple.ite (fun _ => hdone _) fun hok => ?_
  refine tracked_vis trivial fun data _ =>
    tracked_vis ⟨trivial, .inr ⟨trivial, fun _ => ⟨rfl, id⟩⟩⟩ fun _ _ => ?_
  refine Triple.weaken (P := Tracked card (RecoveryChecked card.vendorId)) ?_ (fun w hw => hw.mono ?_)
    fun _ _ h => h
  · refine Triple.bind (p := kernelTlbSanityCheck) mmio_steady
      (gate_keeps (kernelTlbSanityCheck_gate hne)) fun status => ?_
    refine Triple.ite (fun _ => hdone _) fun _ => ?_
    exact tracked_vis ⟨trivial, .inr ⟨trivial, fun _ => ⟨rfl, id⟩⟩⟩ fun _ _ => hdone _
  · rintro evs ⟨_, rfl, _, rfl, restore, before, rfl, ⟨_, rfl, _, rfl, _, rfl, _, rfl, -⟩, hrestored⟩
    simp only [Bool.not_eq_true', Bool.not_eq_false, Bool.and_eq_true, beq_iff_eq] at hpresent hfull
    refine RecoveryChecked.cons (RecoveryChecked.cons ⟨restore, _, idData, cmdData, c₃, rfl, ?_, ?_,
      ?_, ?_, ?_, ?_, ?_, ?_⟩ _) _
    · simp
    · exact hpresent.1
    · exact hpresent.2.trans (congrArg Card.vendorId hc₂.1)
    · simp
    · exact hfull
    · exact not_not.mp hparity
    · simp
    · exact hrestored (by simpa using hok)

end Recovery

end TtWind
