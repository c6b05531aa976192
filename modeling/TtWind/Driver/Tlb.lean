import TtWind.Driver.Ops

/-!
# TLB windows (tlb.c)

Packing a window configuration into its 96-bit register image, programming the
registers, the bounded readback POST_RESET uses as its gate, and the four TLB
ioctls.
-/

set_option autoImplicit false

namespace TtWind

/-- `TtWindPutField`: OR a field into the image held as `lo` (bits 0..63) and
`hi` (bits 64..95). -/
def putField (lo : UInt64) (hi : UInt32) (pos width : Nat) (value : UInt64) : UInt64 × UInt32 :=
  let mask : UInt64 := if 64 ≤ width then 0xFFFFFFFFFFFFFFFF else (1 <<< UInt64.ofNat width) - 1
  let masked := value &&& mask
  if pos < 64 then
    (lo ||| (masked <<< UInt64.ofNat pos),
      if 64 < pos + width then hi ||| (masked >>> UInt64.ofNat (64 - pos)).toUInt32 else hi)
  else (lo, hi ||| (masked <<< UInt64.ofNat (pos - 64)).toUInt32)

/-- C's `v << n` and `v >> n` on 64 bits: undefined from the operand's width on. -/
def shiftLeft64 (v : UInt64) (n : Nat) : Option UInt64 :=
  if n < 64 then some (v <<< UInt64.ofNat n) else none

def shiftRight64 (v : UInt64) (n : Nat) : Option UInt64 :=
  if n < 64 then some (v >>> UInt64.ofNat n) else none

/-- `TtWindPutField` with the shifts of C, as it evaluates them. -/
def putFieldDefined (lo : UInt64) (hi : UInt32) (pos width : Nat) (value : UInt64) :
    Option (UInt64 × UInt32) := do
  let mask ← if 64 ≤ width then some 0xFFFFFFFFFFFFFFFF else (shiftLeft64 1 width).map (· - 1)
  let masked := value &&& mask
  if pos < 64 then
    let low ← shiftLeft64 masked pos
    if 64 < pos + width then
      let high ← shiftRight64 masked (64 - pos)
      return (lo ||| low, hi ||| high.toUInt32)
    else return (lo ||| low, hi)
  else
    let high ← shiftLeft64 masked (pos - 64)
    return (lo, hi ||| high.toUInt32)

/-- `TtWindPackTlb2M`. -/
def packTlb2M (cfg : NocTlbConfig) : UInt64 × UInt32 :=
  let put (img : UInt64 × UInt32) (pos width : Nat) (value : UInt64) : UInt64 × UInt32 :=
    putField img.1 img.2 pos width value
  let img := put (0, 0) 0 43 (cfg.addr >>> tlb2mShift)
  let img := put img 43 6 cfg.xEnd.toUInt64
  let img := put img 49 6 cfg.yEnd.toUInt64
  let img := put img 55 6 cfg.xStart.toUInt64
  let img := put img 61 6 cfg.yStart.toUInt64
  let img := put img 67 2 cfg.noc.toUInt64
  let img := put img 69 1 cfg.mcast.toUInt64
  let img := put img 70 2 cfg.ordering.toUInt64
  let img := put img 72 1 cfg.linked.toUInt64
  put img 73 1 cfg.staticVc.toUInt64

/-- `TtWindProgramTlb2M`: write window `tlbId`'s three registers, and clear its
strided register if it has one. -/
def programTlb2M (tlbId : Nat) (cfg : NocTlbConfig) : Drv Unit := do
  let img := packTlb2M cfg
  let c ← load
  let regs := tlbId * tlbRegSize
  writeRegister c.tlbRegs (regs + 0) img.1.toUInt32
  writeRegister c.tlbRegs (regs + 4) (img.1 >>> 32).toUInt32
  writeRegister c.tlbRegs (regs + 8) img.2
  if tlbId < tlbStridedCount then
    let c ← load
    writeRegister c.tlbRegs (tlbStridedRegsOffset + tlbId * tlbStridedRegSize) 0

/-- The known-good configuration of the readback: the ARC tile, strict ordering. -/
def sanityConfig : NocTlbConfig := { addr := 0, xEnd := 8, yEnd := 0, noc := 0, ordering := 1 }

/-- `TtWindKernelTlbSanityCheck`: program the kernel window and read it back. -/
def kernelTlbSanityCheck : Drv NtStatus := do
  let img := packTlb2M sanityConfig
  programTlb2M kernelTlbIndex sanityConfig
  let c ← load
  let regs := kernelTlbIndex * tlbRegSize
  let rb0 ← readRegister c.tlbRegs (regs + 0)
  let rb1 ← readRegister c.tlbRegs (regs + 4)
  let rb2 ← readRegister c.tlbRegs (regs + 8)
  if rb0 ≠ img.1.toUInt32 ∨ rb1 ≠ (img.1 >>> 32).toUInt32 ∨ rb2 ≠ img.2 then
    return .ioDeviceError
  return .success

/-- `TtWindIoctlAllocateTlb`. The answer of a handler with an output structure is
its status and the number of bytes written. -/
def ioctlAllocateTlb (fileObject : Option FileObject) : Drv (NtStatus × Nat) := do
  let some fo := fileObject | return (.invalidHandle, 0)
  let status ← retrieveInputBuffer 8
  if !status.ok then return (status, 0)
  let status ← retrieveOutputBuffer 8
  if !status.ok then return (status, 0)
  -- only the 2 MiB kind exists for now
  let size ← inU64 0
  if size ≠ tlb2mSize then return (.invalidParameter, 0)
  let some id ← locked (.allocateTlb fo) | return (.insufficientResources, 0)
  outZero 8
  outU32 0 (UInt32.ofNat id)
  return (.success, 8)

/-- `TtWindIoctlFreeTlb`. -/
def ioctlFreeTlb (fileObject : Option FileObject) : Drv NtStatus := do
  let some fo := fileObject | return .invalidHandle
  let status ← retrieveInputBuffer 8
  if !status.ok then return status
  let reserved ← inU32 4
  if reserved ≠ 0 then return .invalidParameter
  let tlbId ← inU32 0
  locked (.freeTlb fo tlbId.toNat)

/-- The `TTWIND_NOC_TLB_CONFIG` at an offset of the input structure. -/
def inTlbConfig (off : Nat) : Drv NocTlbConfig := do
  return {
    addr := ← inU64 off
    xEnd := ← inU16 (off + 8)
    yEnd := ← inU16 (off + 10)
    xStart := ← inU16 (off + 12)
    yStart := ← inU16 (off + 14)
    noc := ← inU8 (off + 16)
    mcast := ← inU8 (off + 17)
    ordering := ← inU8 (off + 18)
    linked := ← inU8 (off + 19)
    staticVc := ← inU8 (off + 20) }

/-- Every field fits its register field, so nothing truncates silently. -/
def NocTlbConfig.inRange (cfg : NocTlbConfig) : Bool :=
  cfg.xEnd ≤ 0x3F && cfg.yEnd ≤ 0x3F && cfg.xStart ≤ 0x3F && cfg.yStart ≤ 0x3F &&
    cfg.noc ≤ 1 && cfg.mcast ≤ 1 && cfg.ordering ≤ 3 && cfg.linked ≤ 1 && cfg.staticVc ≤ 1

/-- The part of CONFIGURE_TLB under StateLock. -/
def configureLocked (fo : FileObject) (tlbId : Nat) (cfg : NocTlbConfig) : Drv NtStatus := do
  let c ← load
  let status := c.checkTlbOwner fo tlbId
  if !status.ok then return status
  if c.tlbRegs = none then return .deviceNotReady
  programTlb2M tlbId cfg
  return status

/-- `TtWindIoctlConfigureTlb`. The registers are written under StateLock. -/
def ioctlConfigureTlb (fileObject : Option FileObject) : Drv NtStatus := do
  let some fo := fileObject | return .invalidHandle
  let status ← retrieveInputBuffer 40
  if !status.ok then return status
  let reserved ← inU32 4
  let reserved0 ← op (.inField 29 3)
  let reserved1 ← op (.inField 32 8)
  if reserved ≠ 0 ∨ reserved0 ≠ 0 ∨ reserved1 ≠ 0 then return .invalidParameter
  let cfg ← inTlbConfig 8
  if cfg.addr &&& (tlb2mSize - 1) ≠ 0 then return .invalidParameter
  if !cfg.inRange then return .invalidParameter
  let tlbId ← inU32 0
  acquire .state
  let status ← configureLocked fo tlbId.toNat cfg
  release .state
  return status

end TtWind
