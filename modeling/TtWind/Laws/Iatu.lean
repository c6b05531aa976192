import TtWind.Driver.Schedule
import TtWind.Laws.Frame

/-!
# The outbound iATU

A log of the run keeps the bytes of the iATU register block as the driver's writes leave them,
whatever they were at first. An outbound region is decoded from its nine registers; the one
program that writes them leaves the region it is asked for.
-/

set_option autoImplicit false

namespace TtWind

open TtWind.Effect TtWind.Effect.Prog

/-- The bytes of the iATU register block. -/
abbrev IatuRegs := Nat → UInt8

/-- A register of a region. -/
def iatuReg (g : IatuRegs) (region reg : Nat) : Nat :=
  leNat g (iatuBase + region * iatuRegionStride + reg) 4

/-- What the registers of a region say. The limit has an upper half of its own only when the
region's size is increased; without it the limit shares that of the base. -/
def outboundRegion (g : IatuRegs) (region : Nat) : OutboundIatu :=
  let upperLimit := if (iatuReg g region iatuRegionCtrl1).testBit 13
    then iatuReg g region iatuUpperLimit else iatuReg g region iatuUpperBase
  { base := UInt64.ofNat (iatuReg g region iatuLowerBase + iatuReg g region iatuUpperBase * 2 ^ 32)
    limit := UInt64.ofNat (iatuReg g region iatuLowerLimit + upperLimit * 2 ^ 32)
    target := UInt64.ofNat
      (iatuReg g region iatuLowerTarget + iatuReg g region iatuUpperTarget * 2 ^ 32)
    enabled := (iatuReg g region iatuRegionCtrl2).testBit 31 }

/-- The log of the iATU registers: a write through the pointer to the block stores its four
bytes. -/
def iatuLog : Observer DriverSig Tid World IatuRegs where
  initial _ _ := True
  note
    | _, .mmioWrite p off v, _, w, g => if p = w.ctx.bar2Iatu then leStore g off 4 v.toNat else g
    | _, _, _, _, g => g

/-- Writes through one pointer, in order. -/
def writeRegisters (p : IoPtr) : List (Nat × UInt32) → Drv Unit
  | [] => return ()
  | e :: es => do
    writeRegister p e.1 e.2
    writeRegisters p es

/-- The registers that programming a region writes, in order. -/
def iatuWrites (region : Nat) (base limit target : UInt64) : List (Nat × UInt32) :=
  let regs := iatuBase + region * iatuRegionStride
  [(regs + iatuLowerBase, base.toUInt32), (regs + iatuUpperBase, (base >>> 32).toUInt32),
    (regs + iatuLowerTarget, target.toUInt32), (regs + iatuUpperTarget, (target >>> 32).toUInt32),
    (regs + iatuLowerLimit, limit.toUInt32), (regs + iatuUpperLimit, (limit >>> 32).toUInt32),
    (regs + iatuRegionCtrl1, iatuIncreaseRegionSize),
    (regs + iatuRegionCtrl2, if limit = 0 then 0 else iatuRegionEn), (regs + iatuRegionCtrl3, 0)]

/-- Programming a region, its register writes in one piece. -/
theorem iatuProgramOutbound_eq (region : Nat) (base limit target : UInt64) :
    iatuProgramOutbound region base limit target =
      if iatuMaxRegionSize < limit - base + 1 then return .invalidParameter
      else if iatuOutboundRegions ≤ region then return .invalidParameter
      else do
        let c ← load
        writeRegisters c.bar2Iatu (iatuWrites region base limit target)
        store fun c => { c with
          outboundIatu := Function.update c.outboundIatu region
            ⟨base, limit, target, (if limit = 0 then 0 else iatuRegionEn) ≠ 0⟩ }
        return .success := rfl

/-- A 64-bit word is its two halves. -/
theorem ofNat_halves (v : UInt64) :
    UInt64.ofNat (v.toUInt32.toNat + (v >>> 32).toUInt32.toNat * 2 ^ 32) = v := by
  have hlt := v.toNat_lt
  have hshift : (32 : UInt64).toNat % 64 = 32 := rfl
  have hvalue : v.toUInt32.toNat + (v >>> 32).toUInt32.toNat * 2 ^ 32 = v.toNat := by
    rw [UInt64.toNat_toUInt32, UInt64.toNat_toUInt32, UInt64.toNat_shiftRight, hshift,
      Nat.shiftRight_eq_div_pow]
    omega
  rw [hvalue, UInt64.ofNat_toNat]

theorem iatuWrites_apart (region : Nat) (base limit target : UInt64) :
    (iatuWrites region base limit target).Pairwise
      fun e e' => e.1 + 4 ≤ e'.1 ∨ e'.1 + 4 ≤ e.1 := by
  unfold iatuWrites
  generalize iatuBase + region * iatuRegionStride = regs
  simp only [List.pairwise_cons, List.mem_cons, List.not_mem_nil, or_false, forall_eq_or_imp,
    forall_eq, iatuLowerBase, iatuUpperBase, iatuLowerTarget, iatuUpperTarget, iatuLowerLimit,
    iatuUpperLimit, iatuRegionCtrl1, iatuRegionCtrl2, iatuRegionCtrl3]
  simp

/-- The region reads as it was programmed, and is on unless its limit is 0. -/
theorem outboundRegion_writes (g : IatuRegs) (region : Nat) (base limit target : UInt64) :
    outboundRegion (storeAll g (iatuWrites region base limit target)) region =
      ⟨base, limit, target, limit ≠ 0⟩ := by
  generalize hg' : storeAll g (iatuWrites region base limit target) = g'
  have hreg : ∀ {reg : Nat} {v : UInt32},
      (iatuBase + region * iatuRegionStride + reg, v) ∈ iatuWrites region base limit target →
      iatuReg g' region reg = v.toNat := by
    intro reg v h
    rw [← hg']
    exact leNat_storeAll (iatuWrites_apart region base limit target) h
  have hlowerBase : iatuReg g' region iatuLowerBase = base.toUInt32.toNat :=
    hreg (by simp [iatuWrites])
  have hupperBase : iatuReg g' region iatuUpperBase = (base >>> 32).toUInt32.toNat :=
    hreg (by simp [iatuWrites])
  have hlowerTarget : iatuReg g' region iatuLowerTarget = target.toUInt32.toNat :=
    hreg (by simp [iatuWrites])
  have hupperTarget : iatuReg g' region iatuUpperTarget = (target >>> 32).toUInt32.toNat :=
    hreg (by simp [iatuWrites])
  have hlowerLimit : iatuReg g' region iatuLowerLimit = limit.toUInt32.toNat :=
    hreg (by simp [iatuWrites])
  have hupperLimit : iatuReg g' region iatuUpperLimit = (limit >>> 32).toUInt32.toNat :=
    hreg (by simp [iatuWrites])
  have hctrl1 : iatuReg g' region iatuRegionCtrl1 = iatuIncreaseRegionSize.toNat :=
    hreg (by simp [iatuWrites])
  have hctrl2 : iatuReg g' region iatuRegionCtrl2 =
      (if limit = 0 then 0 else iatuRegionEn : UInt32).toNat := hreg (by simp [iatuWrites])
  have hincrease : iatuIncreaseRegionSize.toNat.testBit 13 = true := by decide
  have hon : (if limit = 0 then 0 else iatuRegionEn : UInt32).toNat.testBit 31 =
      decide (limit ≠ 0) := by
    by_cases h : limit = 0
    · simp [h]
    · rw [if_neg h, decide_eq_true h]
      decide
  rw [outboundRegion, hlowerBase, hupperBase, hlowerTarget, hupperTarget, hlowerLimit, hupperLimit,
    hctrl1, hctrl2, if_pos hincrease, hon, ofNat_halves, ofNat_halves, ofNat_halves]

end TtWind
