import TtWind.Laws.Iatu
import TtWind.Laws.MapSysmem
import TtWind.Laws.Windows

/-!
# The way of the device to the buffer

An access through a 2 MiB window asks for a NOC address of the tile the window is aimed at. The
PCIe tile takes its NOC offset off, and outbound region 0 sends what is left to the host. The
window's address field, the offset inside the window, and the base, limit and target of the
region add up to the same physical byte that the view of MAP_SYSMEM shows.
-/

set_option autoImplicit false

namespace TtWind

open TtWind.Effect

/-! ## The device -/

/-- Where an outbound region sends an address of the device's side. -/
def OutboundIatu.translate (r : OutboundIatu) (a : UInt64) : Option UInt64 :=
  if r.enabled ∧ r.base ≤ a ∧ a ≤ r.limit then some (r.target + (a - r.base)) else none

/-- Where region 0 sends a NOC address of the PCIe tile. -/
def pcieTarget (g : IatuRegs) (noc : UInt64) : Option UInt64 :=
  (outboundRegion g 0).translate (noc - nocPcieOffset)

/-- Where an access at an offset in a window ends up on the host, if the window is aimed at the
PCIe tile. -/
def Windows.hostByte (s : Windows) (g : IatuRegs) (tile : UInt32) (i : Nat) (off : UInt64) :
    Option Nat :=
  let cfg := unpackTlb2M (s.image i)
  if cfg.xEnd.toUInt32 = tile ∧ cfg.yEnd = 0 then (pcieTarget g (cfg.addr + off)).map UInt64.toNat
  else none

/-- The 2 MiB block of a NOC address, and its offset there. -/
def blockOf (a : UInt64) : UInt64 := a &&& ~~~(tlb2mSize - 1)

def offsetIn (a : UInt64) : UInt64 := a &&& (tlb2mSize - 1)

theorem offsetIn_toNat (a : UInt64) : (offsetIn a).toNat = a.toNat % 2 ^ 21 := by
  have hmask : (tlb2mSize - 1).toNat = 2 ^ 21 - 1 := rfl
  rw [offsetIn, UInt64.toNat_and, hmask, Nat.and_two_pow_sub_one_eq_mod]

theorem and_not_add_and {w : Nat} (a m : BitVec w) : (a &&& ~~~m) + (a &&& m) = a := by
  have hdisjoint : (a &&& ~~~m) &&& (a &&& m) = 0#w := by
    ext i hi
    simp only [BitVec.getElem_and, BitVec.getElem_not, BitVec.getElem_zero]
    cases a[i] <;> cases m[i] <;> rfl
  rw [BitVec.add_eq_or_of_and_eq_zero _ _ hdisjoint]
  ext i hi
  simp only [BitVec.getElem_or, BitVec.getElem_and, BitVec.getElem_not]
  cases a[i] <;> cases m[i] <;> rfl

/-- An address is its block and its offset there. -/
theorem block_add_offset (a : UInt64) : blockOf a + offsetIn a = a := by
  apply UInt64.toBitVec_inj.mp
  exact and_not_add_and a.toBitVec _

theorem blockOf_aligned (a : UInt64) : blockOf a &&& (tlb2mSize - 1) = 0 := by
  rw [blockOf, UInt64.and_assoc, UInt64.and_comm (~~~(tlb2mSize - 1)), UInt64.and_not_self,
    UInt64.and_zero]

/-! ## What the driver leaves in the registers -/

section Registers

variable {t : Tid} {α : Type} {b : α}

theorem solo_writeRegisters {p : IoPtr} {es : List (Nat × UInt32)} {x y : World × IatuRegs}
    (h : Solo (driverMachine.observe iatuLog) t (writeRegisters p es) x () y)
    (hp : p = x.1.ctx.bar2Iatu) : y.2 = storeAll x.2 es := by
  induction es generalizing x with
  | nil =>
    obtain ⟨-, rfl⟩ := Effect.Solo.pure_iff.mp h
    rfl
  | cons e es ih =>
    obtain ⟨ch, a, x₁, he, hrest⟩ := Effect.Solo.vis_iff.mp h
    obtain ⟨hexec, -, hnote⟩ := watched_exec he
    have hctx : x₁.1.ctx = x.1.ctx := (World.exec_frame hexec).ctx
    simp only [iatuLog, if_pos hp] at hnote
    rw [ih hrest (hctx ▸ hp), hnote]
    rfl

/-- A region programmed with success reads as it was programmed. -/
theorem solo_iatuProgramOutbound {region : Nat} {base limit target : UInt64} {x y : World × IatuRegs}
    (h : Solo (driverMachine.observe iatuLog) t (iatuProgramOutbound region base limit target) x
      .success y) :
    outboundRegion y.2 region = ⟨base, limit, target, limit ≠ 0⟩ := by
  rw [iatuProgramOutbound_eq] at h
  split at h
  · obtain ⟨heq, -⟩ := Effect.Solo.pure_iff.mp h
    cases heq
  split at h
  · obtain ⟨heq, -⟩ := Effect.Solo.pure_iff.mp h
    cases heq
  obtain ⟨e, c, x₁, hload, h⟩ := Effect.Solo.vis_iff.mp h
  obtain ⟨hexec, -, -⟩ := watched_exec hload
  have hctx₁ : x₁.1.ctx = x.1.ctx := (World.exec_frame hexec).ctx
  obtain ⟨w, hs, -⟩ := World.exec_step hexec
  obtain ⟨rfl, -⟩ := Prod.mk.inj (Option.some.inj hs)
  obtain ⟨u, x₂, hwrites, h⟩ := (Effect.Solo.bind_iff (p := writeRegisters _ _)).mp h
  have hregs := solo_writeRegisters hwrites (by rw [hctx₁])
  obtain ⟨e, u, x₃, hstore, h⟩ := Effect.Solo.vis_iff.mp h
  have hseen : x₃.2 = x₂.2 := (watched_exec hstore).2.2
  obtain ⟨-, rfl⟩ := Effect.Solo.pure_iff.mp h
  rw [hseen, hregs, outboundRegion_writes]

/-- A write through the pointer to the window registers stores its bytes. -/
theorem solo_write_window {p : IoPtr} {off : Nat} {v : UInt32} {k : Unit → Drv α}
    {x y : World × Windows}
    (h : Solo (driverMachine.observe windowLog) t (.vis (.mmioWrite p off v) k) x b y)
    (hp : p = x.1.ctx.tlbRegs) :
    ∃ x₁, x₁.1.ctx = x.1.ctx ∧ x₁.2.regs = leStore x.2.regs off 4 v.toNat ∧
      Solo (driverMachine.observe windowLog) t (k ()) x₁ b y := by
  obtain ⟨e, a, x₁, he, hrest⟩ := Effect.Solo.vis_iff.mp h
  obtain ⟨hexec, -, hnote⟩ := watched_exec he
  have hctx : x₁.1.ctx = x.1.ctx := (World.exec_frame hexec).ctx
  simp only [windowLog, if_pos hp] at hnote
  exact ⟨x₁, hctx, by rw [hnote], hrest⟩

theorem solo_load_window {k : DeviceContext → Drv α} {x y : World × Windows}
    (h : Solo (driverMachine.observe windowLog) t (.vis .load k) x b y) :
    ∃ x₁, x₁.1.ctx = x.1.ctx ∧ x₁.2 = x.2 ∧
      Solo (driverMachine.observe windowLog) t (k x.1.ctx) x₁ b y := by
  obtain ⟨e, c, x₁, he, hrest⟩ := Effect.Solo.vis_iff.mp h
  obtain ⟨hexec, -, hnote⟩ := watched_exec he
  obtain ⟨w, hs, -⟩ := World.exec_step hexec
  obtain ⟨rfl, -⟩ := Prod.mk.inj (Option.some.inj hs)
  exact ⟨x₁, (World.exec_frame hexec).ctx, hnote, hrest⟩

/-- A window programmed with a valid configuration holds it. -/
theorem solo_programTlb2M {i : Nat} {cfg : NocTlbConfig} {x y : World × Windows}
    (hi : i < tlb2mCount) (hr : cfg.inRange = true) (ha : cfg.addr &&& (tlb2mSize - 1) = 0)
    (h : Solo (driverMachine.observe windowLog) t (programTlb2M i cfg) x () y) :
    y.2.Holds i cfg ∧ y.1.ctx = x.1.ctx := by
  have hfits : ∀ v : UInt32, v.toNat % 256 ^ 4 = v.toNat := fun v => Nat.mod_eq_of_lt v.toNat_lt
  obtain ⟨x₀, hctx₀, hseen₀, h⟩ := solo_load_window h
  obtain ⟨x₁, hctx₁, hregs₁, h⟩ := solo_write_window h (by rw [hctx₀])
  obtain ⟨x₂, hctx₂, hregs₂, h⟩ := solo_write_window h (by rw [hctx₁, hctx₀])
  obtain ⟨x₃, hctx₃, hregs₃, h⟩ := solo_write_window h (by rw [hctx₂, hctx₁, hctx₀])
  have hctx : x₃.1.ctx = x.1.ctx := by rw [hctx₃, hctx₂, hctx₁, hctx₀]
  have h0 : leNat x₃.2.regs (i * tlbRegSize) 4 = (packTlb2M cfg).1.toUInt32.toNat := by
    rw [hregs₃, hregs₂, hregs₁, leNat_leStore_of_disjoint (by omega), leNat_leStore_of_disjoint (by omega)]
    exact (leNat_leStore ..).trans (hfits _)
  have h1 : leNat x₃.2.regs (i * tlbRegSize + 4) 4 = ((packTlb2M cfg).1 >>> 32).toUInt32.toNat := by
    rw [hregs₃, hregs₂, leNat_leStore_of_disjoint (by omega)]
    exact (leNat_leStore ..).trans (hfits _)
  have h2 : leNat x₃.2.regs (i * tlbRegSize + 8) 4 = (packTlb2M cfg).2.toNat := by
    rw [hregs₃]
    exact (leNat_leStore ..).trans (hfits _)
  split at h
  · rename_i hst
    obtain ⟨x₄, hctx₄, hseen₄, h⟩ := solo_load_window h
    obtain ⟨x₅, hctx₅, hregs₅, h⟩ := solo_write_window h (by rw [hctx₄])
    obtain ⟨-, rfl⟩ := Effect.Solo.pure_iff.mp h
    have hapart : ∀ {off : Nat}, off + 4 ≤ i * tlbRegSize + 12 →
        leNat y.2.regs off 4 = leNat x₃.2.regs off 4 := by
      intro off hoff
      rw [hregs₅, hseen₄]
      apply leNat_leStore_of_disjoint
      simp only [tlbRegSize, tlbStridedRegsOffset, tlbStridedRegSize, tlb2mCount, tlb4gCount] at *
      omega
    refine ⟨Windows.holds_of_regs hr ha ?_ ?_ ?_ fun _ => ?_, by rw [hctx₅, hctx₄, hctx]⟩
    · rw [hapart (by omega), h0]
    · rw [hapart (by omega), h1]
    · rw [hapart (by omega), h2]
    · rw [Windows.strided, hregs₅]
      exact leNat_leStore _ _ _ _
  · rename_i hst
    obtain ⟨-, rfl⟩ := Effect.Solo.pure_iff.mp h
    exact ⟨Windows.holds_of_regs hr ha h0 h1 h2 fun hlt => absurd hlt hst, hctx⟩

/-- The driver's own read aims the kernel window at the tile, and reads at the address's offset. -/
theorem solo_sysmemNocRead32 {a : UInt64} {v : UInt32} {x y : World × Windows}
    (htile : x.1.ctx.pcieTileX = 2 ∨ x.1.ctx.pcieTileX = 11)
    (h : Solo (driverMachine.observe windowLog) t (sysmemNocRead32 a) x v y) :
    y.2.Holds kernelTlbIndex { addr := blockOf a, xEnd := x.1.ctx.pcieTileX.toUInt16, ordering := 1 } ∧
      ∃ evs, y.1.hist t = ⟨.mmioRead x.1.ctx.kernelTlb (offsetIn a).toNat, v⟩ :: evs := by
  have hrange : NocTlbConfig.inRange
      { addr := blockOf a, xEnd := x.1.ctx.pcieTileX.toUInt16, ordering := 1 } = true := by
    rcases htile with htile | htile <;> rw [htile] <;> rfl
  obtain ⟨x₁, hctx₁, -, h⟩ := solo_load_window h
  obtain ⟨u, x₂, hprogram, h⟩ := (Effect.Solo.bind_iff (p := programTlb2M kernelTlbIndex _)).mp h
  obtain ⟨hholds, hctx₂⟩ := solo_programTlb2M (by decide) hrange (blockOf_aligned a) hprogram
  obtain ⟨x₃, hctx₃, hseen₃, h⟩ := solo_load_window h
  obtain ⟨e, v', x₄, hread, h⟩ := Effect.Solo.vis_iff.mp h
  obtain ⟨hexec, -, hseen₄⟩ := watched_exec hread
  obtain ⟨rfl, rfl⟩ := Effect.Solo.pure_iff.mp h
  have hseen : y.2 = x₂.2 := hseen₄.trans hseen₃
  have hhist := (World.exec_frame hexec).hist
  refine ⟨?_, x₃.1.hist t, ?_⟩
  · rw [hseen]
    exact hholds
  · rw [hhist, Function.update_self, hctx₂, hctx₁]
    rfl

end Registers

/-! ## The buffer -/

section Buffer

variable {g : IatuRegs} {phys size : UInt64}
  (hregion : outboundRegion g 0 = ⟨0, size - 1, phys, decide (size - 1 ≠ 0)⟩)
  (hfit : phys.toNat + size.toNat ≤ 2 ^ 58)

include hregion hfit

/-- Region 0 sends the buffer's window of the NOC to the buffer. -/
theorem pcieTarget_inside {a : UInt64} {k : Nat} (hsize : 1 < size.toNat) (hk : k < size.toNat)
    (ha : a.toNat = nocPcieOffset.toNat + k) :
    (pcieTarget g a).map UInt64.toNat = some (phys.toNat + k) := by
  have hlimit : (size - 1).toNat = size.toNat - 1 :=
    UInt64.toNat_sub_of_le _ _ (UInt64.le_iff_toNat_le.mpr (Nat.le_of_lt hsize))
  have hon : size - 1 ≠ 0 := by
    intro h
    have hzero : (size - 1).toNat = 0 := by rw [h]; rfl
    omega
  have hback : (a - nocPcieOffset).toNat = k := by
    rw [UInt64.toNat_sub_of_le _ _ (UInt64.le_iff_toNat_le.mpr (by omega)), ha, Nat.add_sub_cancel_left]
  have hreach : (phys + (a - nocPcieOffset - 0)).toNat = phys.toNat + k := by
    rw [UInt64.sub_zero, UInt64.toNat_add, hback]
    omega
  rw [pcieTarget, hregion, OutboundIatu.translate, if_pos, Option.map_some, hreach]
  refine ⟨decide_eq_true hon, UInt64.le_iff_toNat_le.mpr (Nat.zero_le _), ?_⟩
  rw [UInt64.le_iff_toNat_le, hback, hlimit]
  omega

/-- It sends nothing else of the NOC anywhere. -/
theorem pcieTarget_outside {a : UInt64} (hsize : 1 < size.toNat)
    (ha : a.toNat < nocPcieOffset.toNat ∨ nocPcieOffset.toNat + size.toNat ≤ a.toNat) :
    pcieTarget g a = none := by
  have hlimit : (size - 1).toNat = size.toNat - 1 :=
    UInt64.toNat_sub_of_le _ _ (UInt64.le_iff_toNat_le.mpr (Nat.le_of_lt hsize))
  have hoffset : nocPcieOffset.toNat = 2 ^ 60 := rfl
  have hback : (a - nocPcieOffset).toNat = (2 ^ 64 - nocPcieOffset.toNat + a.toNat) % 2 ^ 64 :=
    UInt64.toNat_sub _ _
  have hlt := a.toNat_lt
  rw [pcieTarget, hregion, OutboundIatu.translate, if_neg]
  rintro ⟨-, -, hle⟩
  rw [UInt64.le_iff_toNat_le, hback, hlimit] at hle
  omega

end Buffer

/-- The host's view of the buffer and the device's agree. A byte of the view MAP_SYSMEM makes is
the byte of the host that an access at its NOC address reaches, through any 2 MiB window
configured for the tile at the address's block, and through the kernel window as the driver
aims it for its own reads. Region 0 translates no NOC address outside the buffer's window. -/
theorem sysmem_views_agree {t t' : Tid} {fileObject : Option FileObject} {w w' : World} {n : Nat}
    {x y : World × IatuRegs}
    (hfit : w.ctx.sysmemPhys.toNat + w.ctx.sysmemSize.toNat ≤ 2 ^ 58)
    (hregion : Solo (driverMachine.observe iatuLog) t
      (iatuProgramOutbound 0 0 (w.ctx.sysmemSize - 1) w.ctx.sysmemPhys) x .success y)
    (hmap : Solo driverMachine t' (ioctlMapSysmem fileObject) w (.success, n) w') :
    let offset := UInt64.ofNat (leNat w.req.inBuf 0 8)
    let length := UInt64.ofNat (leNat w.req.inBuf 8 8)
    let userVa := UInt64.ofNat (leNat w'.req.output 0 8)
    let host (k : Nat) := w.ctx.sysmemPhys.toNat + offset.toNat + k
    let noc (k : Nat) := nocPcieOffset + offset + UInt64.ofNat k
    (∃ v, w'.views = v :: w.views ∧ ∀ k < length.toNat, v.byteAt userVa k = some (host k)) ∧
    (∀ k < length.toNat, ∀ (tile : UInt32) (u : Tid) (x₁ y₁ : World × Windows),
      (∀ i cfg, i < tlb2mCount → cfg.inRange = true → cfg.addr = blockOf (noc k) →
        cfg.xEnd.toUInt32 = tile → cfg.yEnd = 0 →
        Solo (driverMachine.observe windowLog) u (programTlb2M i cfg) x₁ () y₁ →
          y₁.2.hostByte y.2 tile i (offsetIn (noc k)) = some (host k)) ∧
      ∀ v, x₁.1.ctx.pcieTileX = tile → tile = 2 ∨ tile = 11 →
        Solo (driverMachine.observe windowLog) u (sysmemNocRead32 (noc k)) x₁ v y₁ →
          (∃ evs, y₁.1.hist u = ⟨.mmioRead x₁.1.ctx.kernelTlb (offsetIn (noc k)).toNat, v⟩ :: evs) ∧
          y₁.2.hostByte y.2 tile kernelTlbIndex (offsetIn (noc k)) = some (host k)) ∧
    ∀ a : UInt64, a.toNat < nocPcieOffset.toNat ∨
        nocPcieOffset.toNat + w.ctx.sysmemSize.toNat ≤ a.toNat → pcieTarget y.2 a = none := by
  intro offset length userVa host noc
  have hregion := solo_iatuProgramOutbound hregion
  obtain ⟨-, haligned, hbounds, addr, process, base, hviews, hva⟩ :=
    solo_ioctlMapSysmem (show offset = _ from rfl) (show length = _ from rfl) rfl hmap
  have hbounds := mapSysmemInBounds_iff.mp hbounds
  have hpage := mapSysmemAligned_page haligned
  have hsize : 1 < w.ctx.sysmemSize.toNat := by omega
  have hexact : (w.ctx.sysmemPhys + offset).toNat = w.ctx.sysmemPhys.toNat + offset.toNat := by
    rw [UInt64.toNat_add]
    omega
  have hstart := viewStart_le (w.ctx.sysmemPhys + offset)
  have hnoc : ∀ k < length.toNat, (noc k).toNat = nocPcieOffset.toNat + (offset.toNat + k) := by
    intro k hk
    have hoffset : nocPcieOffset.toNat = 2 ^ 60 := rfl
    have hsum : (nocPcieOffset + offset).toNat = nocPcieOffset.toNat + offset.toNat := by
      rw [UInt64.toNat_add]
      omega
    have hk' : (UInt64.ofNat k).toNat = k := by
      rw [UInt64.toNat_ofNat']
      omega
    show (nocPcieOffset + offset + UInt64.ofNat k).toNat = _
    rw [UInt64.toNat_add, hsum, hk']
    omega
  have htarget : ∀ k < length.toNat, (pcieTarget y.2 (noc k)).map UInt64.toNat = some (host k) := by
    intro k hk
    rw [pcieTarget_inside hregion hfit hsize (show offset.toNat + k < _ by omega) (hnoc k hk),
      ← Nat.add_assoc]
  have hwindow : ∀ k < length.toNat, ∀ {s : Windows} {tile : UInt32} {i : Nat} {cfg : NocTlbConfig},
      s.Holds i cfg → cfg.addr = blockOf (noc k) → cfg.xEnd.toUInt32 = tile → cfg.yEnd = 0 →
      s.hostByte y.2 tile i (offsetIn (noc k)) = some (host k) := by
    intro k hk s tile i cfg hs haddr hx hy
    rw [Windows.hostByte, hs.decodes, if_pos ⟨hx, hy⟩, haddr, block_add_offset, htarget k hk]
  refine ⟨⟨_, hviews, fun k hk => ?_⟩, fun k hk tile u x₁ y₁ => ⟨?_, ?_⟩, fun a ha =>
    pcieTarget_outside hregion hfit hsize ha⟩
  · have hdelta : (w.ctx.sysmemPhys + offset - viewStart (w.ctx.sysmemPhys + offset)).toNat =
        (w.ctx.sysmemPhys + offset).toNat - (viewStart (w.ctx.sysmemPhys + offset)).toNat :=
      UInt64.toNat_sub_of_le _ _ (UInt64.le_iff_toNat_le.mpr hstart)
    rw [show userVa = _ from hva, byteAt_of_widened hstart (by omega) hk, hexact]
  · intro i cfg hi hr haddr hx hy hprogram
    have ha : cfg.addr &&& (tlb2mSize - 1) = 0 := haddr ▸ blockOf_aligned _
    exact hwindow k hk (solo_programTlb2M hi hr ha hprogram).1 haddr hx hy
  · intro v hx htile hread
    subst hx
    obtain ⟨hholds, hhist⟩ := solo_sysmemNocRead32 htile hread
    refine ⟨hhist, hwindow k hk hholds rfl ?_ rfl⟩
    rcases htile with htile | htile <;> rw [htile] <;> rfl

/-- The window at the first block of the buffer, for the tile at column 2. -/
def firstBlock : NocTlbConfig := { addr := nocPcieOffset, xEnd := 2 }

/-- A verified buffer at 256 MiB, its first page mapped, and a window aimed at it. -/
theorem sysmem_views_agree_first_page :
    ∃ (w' : World) (v : View) (s : Windows) (g : IatuRegs), w'.views = [v] ∧
      v.byteAt (UInt64.ofNat (leNat w'.req.output 0 8)) 5 = some 0x10000005 ∧
      s.hostByte g 2 0 5 = some 0x10000005 ∧ pcieTarget g 0 = none := by
  have hmapped : (driverMachine.replay .ioctl (ioctlMapSysmem (some 1)) firstPageChoices
      (firstPageWorld 0x10000000)).any (fun r => r.1 == (.success, 16)) = true := by decide
  have hprogrammed : ((driverMachine.observe iatuLog).replay .power
      (iatuProgramOutbound 0 0 ((firstPageWorld 0x10000000).ctx.sysmemSize - 1)
        (firstPageWorld 0x10000000).ctx.sysmemPhys) (plainOps 11) ({}, fun _ => 0)).any
      (fun r => r.1 == .success) = true := by decide
  have haimed : ((driverMachine.observe windowLog).replay .ioctl (programTlb2M 0 firstBlock) (plainOps 6)
      ({}, ⟨fun _ => 0, fun _ => none⟩)).any (fun _ => true) = true := by decide
  obtain ⟨a, w', hmap, hend⟩ := Effect.Solo.exists_of_replay hmapped
  obtain rfl : a = (.success, 16) := beq_iff_eq.mp hend
  obtain ⟨status, y, hregion, hend⟩ := Effect.Solo.exists_of_replay hprogrammed
  obtain rfl : status = .success := beq_iff_eq.mp hend
  obtain ⟨u, y₁, hwindow, -⟩ := Effect.Solo.exists_of_replay haimed
  obtain ⟨⟨v, hviews, hbyte⟩, hdevice, houtside⟩ := sysmem_views_agree (by decide) hregion hmap
  have hlen : 5 < (UInt64.ofNat (leNat (firstPageWorld 0x10000000).req.inBuf 8 8)).toNat := by decide
  refine ⟨w', v, y₁.2, y.2, hviews, hbyte 5 hlen, ?_, houtside 0 (.inl (by decide))⟩
  exact (hdevice 5 hlen 2 .ioctl _ y₁).1 0 firstBlock (by decide) rfl rfl rfl rfl hwindow

end TtWind
