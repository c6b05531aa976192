import TtWind.Driver.Mapping
import TtWind.Driver.Tlb

/-!
# Host system memory (sysmem.c)

Allocation of the contiguous buffer, the outbound iATU, the loopback
verification through the NOC, the arm path that runs them, and the three sysmem
ioctls. Only the arm path and SYSMEM_STATUS touch the device.
-/

set_option autoImplicit false

namespace TtWind

/-! ## Allocation -/

/-- `TtWindSysmemTiers`. -/
def sysmemTiers : List UInt64 :=
  [1024 * 1024 * 1024, 512 * 1024 * 1024, 256 * 1024 * 1024]

/-- Record the outcome of tier `i`. -/
def DeviceContext.setTier (c : DeviceContext) (i : Nat) (r : TierResult) : DeviceContext :=
  { c with sysmemTierResult := Function.update c.sysmemTierResult i r }

/-- The fallback loop: the first tier the memory manager can satisfy. -/
def allocateTiers (node : Option UInt32) (i : Nat) : List UInt64 → Drv Unit
  | [] => return ()
  | size :: sizes => do
    let va ← op (.allocContiguous size dmaAddressLimit node)
    store fun c => { c with sysmemVa := va }
    if va ≠ none then store fun c => { c.setTier i .ok with sysmemSize := size }
    else
      store fun c => c.setTier i .failed
      allocateTiers node (i + 1) sizes

/-- `TtWindSysmemAllocate`. -/
def sysmemAllocate : Drv Unit := do
  let node ← op .numaNode
  allocateTiers node 0 sysmemTiers
  let c ← load
  if c.sysmemVa = none then store fun c => { c with sysmemSize := 0 }
  else
    let phys ← op (.physicalAddress c.sysmemVa)
    store fun c => { c with sysmemPhys := phys }
    op (.bufferZero c.sysmemSize)

/-- Free the buffer, if there is one. -/
def freeBuffer : Drv Unit := do
  let c ← load
  if c.sysmemVa ≠ none then
    op (.freeContiguous c.sysmemVa c.sysmemSize)
    store fun c => { c with sysmemVa := none }
  else return ()

/-- `TtWindSysmemFree`. -/
def sysmemFree : Drv Unit := do
  freeBuffer
  store fun c => { c with
    sysmemSize := 0, sysmemPhys := 0, sysmemVerified := false, pcieTileX := 0 }

/-! ## The iATU and the loopback -/

/-- `TtWindIatuProgramOutbound`. -/
def iatuProgramOutbound (region : Nat) (base limit target : UInt64) : Drv NtStatus := do
  let size := limit - base + 1
  let ctrl1 := iatuIncreaseRegionSize
  let ctrl2 := if limit = 0 then 0 else iatuRegionEn
  if iatuMaxRegionSize < size then return .invalidParameter
  if iatuOutboundRegions ≤ region then return .invalidParameter
  let c ← load
  let regs := iatuBase + region * iatuRegionStride
  writeRegister c.bar2Iatu (regs + iatuLowerBase) base.toUInt32
  writeRegister c.bar2Iatu (regs + iatuUpperBase) (base >>> 32).toUInt32
  writeRegister c.bar2Iatu (regs + iatuLowerTarget) target.toUInt32
  writeRegister c.bar2Iatu (regs + iatuUpperTarget) (target >>> 32).toUInt32
  writeRegister c.bar2Iatu (regs + iatuLowerLimit) limit.toUInt32
  writeRegister c.bar2Iatu (regs + iatuUpperLimit) (limit >>> 32).toUInt32
  writeRegister c.bar2Iatu (regs + iatuRegionCtrl1) ctrl1
  writeRegister c.bar2Iatu (regs + iatuRegionCtrl2) ctrl2
  writeRegister c.bar2Iatu (regs + iatuRegionCtrl3) 0
  store fun c => { c with
    outboundIatu := Function.update c.outboundIatu region ⟨base, limit, target, ctrl2 ≠ 0⟩ }
  return .success

/-- `TtWindSysmemDetectPcieTile`. -/
def sysmemDetectPcieTile : Drv NtStatus := do
  let c ← load
  if c.nocIdRegs = none then return .deviceNotReady
  let nocId ← readRegister c.nocIdRegs (nocIdOffset &&& 0xFFF).toNat
  store fun c => { c with sysmemNocIdRaw := nocId }
  if nocId = 0xFFFFFFFF then return .deviceDoesNotExist
  let x := nocId &&& 0x3F
  if x ≠ 2 ∧ x ≠ 11 then return .deviceConfigurationError
  store fun c => { c with pcieTileX := x }
  return .success

/-- `TtWindSysmemNocRead32`. -/
def sysmemNocRead32 (a : UInt64) : Drv UInt32 := do
  let c ← load
  programTlb2M kernelTlbIndex
    { addr := a &&& ~~~(tlb2mSize - 1), xEnd := c.pcieTileX.toUInt16, yEnd := 0, noc := 0
      ordering := 1 }
  let c ← load
  readRegister c.kernelTlb (a &&& (tlb2mSize - 1)).toNat

/-- The first pattern word of probe `i`; the second is its complement. -/
def probeMagic (i : Nat) : UInt32 := 0x74744D30 + UInt32.ofNat i

/-- The offsets the loopback probes. -/
def loopbackOffsets (size : UInt64) : List UInt64 := [0, size / 2, size - 4096]

/-- Write the pattern at each offset, from probe `i` on. -/
def writeProbes (i : Nat) : List UInt64 → Drv Unit
  | [] => return ()
  | off :: offs => do
    op (.bufferWrite off.toNat (probeMagic i))
    op (.bufferWrite (off.toNat + 4) (~~~probeMagic i))
    writeProbes (i + 1) offs

/-- Record one observation of probe `i`. -/
def DeviceContext.setProbe (c : DeviceContext) (i : Nat) (f : SysmemProbe → SysmemProbe) :
    DeviceContext :=
  { c with sysmemProbes := Function.update c.sysmemProbes i (f (c.sysmemProbes i)) }

/-- Read the pattern back over the NOC; the first all-1s or mismatch ends the loop. -/
def verifyProbes (i : Nat) : List UInt64 → Drv NtStatus
  | [] => return .success
  | off :: offs => do
    let v0 ← sysmemNocRead32 (nocPcieOffset + off)
    store fun c => c.setProbe i fun p =>
      { p with offset := off, wrote0 := probeMagic i, wrote1 := ~~~probeMagic i, read0 := v0 }
    if v0 = 0xFFFFFFFF then return .deviceDoesNotExist
    let v1 ← sysmemNocRead32 (nocPcieOffset + off + 4)
    store fun c => c.setProbe i fun p => { p with read1 := v1 }
    if v0 ≠ probeMagic i ∨ v1 ≠ ~~~probeMagic i then return .ioDeviceError
    verifyProbes (i + 1) offs

/-- Zero both dwords of every probe. -/
def zeroProbes : List UInt64 → Drv Unit
  | [] => return ()
  | off :: offs => do
    op (.bufferWrite off.toNat 0)
    op (.bufferWrite (off.toNat + 4) 0)
    zeroProbes offs

/-- `TtWindSysmemLoopbackVerify`. -/
def sysmemLoopbackVerify : Drv NtStatus := do
  let c ← load
  let offsets := loopbackOffsets c.sysmemSize
  store fun c => { c with sysmemProbes := fun _ => {} }
  writeProbes 0 offsets
  op .memoryBarrier
  let status ← verifyProbes 0 offsets
  zeroProbes offsets
  return status

/-! ## The arm path -/

def setStage (s : SysmemStage) : Drv Unit := store fun c => { c with sysmemStage := s }

/-- The stages of a real attempt. -/
def armStages : Drv NtStatus := do
  let c ← load
  if c.sysmemVa = none then
    setStage .noAlloc
    return .insufficientResources
  if c.bar2Iatu = none ∨ c.kernelTlb = none ∨ c.tlbRegs = none then
    setStage .noRegs
    return .deviceNotReady
  setStage .tileDetect
  let status ← sysmemDetectPcieTile
  if !status.ok then return status
  setStage .iatu
  let c ← load
  let status ← iatuProgramOutbound 0 0 (c.sysmemSize - 1) c.sysmemPhys
  if !status.ok then return status
  setStage .loopback
  let status ← sysmemLoopbackVerify
  if !status.ok then return status
  setStage .verified
  store fun c => { c with sysmemVerified := true }
  return .success

/-- The part of the arm under ArcLock. -/
def armLocked : Drv NtStatus := do
  store fun c => { c with sysmemVerified := false }
  let c ← load
  -- not a real attempt: the recorded stage and status stay
  if c.needsHwInit then return .reinitializationNeeded
  let status ← armStages
  store fun c => { c with sysmemLastStatus := status }
  return status

/-- `TtWindSysmemArm`. -/
def sysmemArm : Drv NtStatus := do
  acquire .arc
  let status ← armLocked
  release .arc
  return status

/-- `TtWindSysmemInvalidate`. -/
def sysmemInvalidate : Drv Unit := do
  acquire .arc
  store fun c => { c with sysmemVerified := false }
  release .arc

/-! ## The sysmem ioctls -/

/-- What QUERY_SYSMEM reports of a verified buffer; nothing otherwise. -/
def outSysmem (c : DeviceContext) : Drv Unit := do
  if c.sysmemVerified then
    outU64 0 c.sysmemSize
    outU64 8 nocPcieOffset
    outU64 16 0
    outU64 24 c.sysmemSize
    outU32 32 1
    outU32 36 c.sysmemSize.toUInt32
    outU32 40 c.pcieTileX
  else return ()

/-- `TtWindIoctlQuerySysmem`. -/
def ioctlQuerySysmem : Drv (NtStatus × Nat) := do
  let status ← retrieveOutputBuffer 48
  if !status.ok then return (status, 0)
  outZero 48
  acquire .arc
  let c ← load
  outSysmem c
  release .arc
  return (.success, 48)

/-- `TTWIND_SYSMEM_STAGE_*`. -/
def SysmemStage.code : SysmemStage → UInt32
  | .notRun => 0
  | .noAlloc => 1
  | .noRegs => 2
  | .tileDetect => 3
  | .iatu => 4
  | .loopback => 5
  | .verified => 6

/-- `TTWIND_SYSMEM_TIER_*`. -/
def TierResult.code : TierResult → UInt32
  | .notTried => 0
  | .failed => 1
  | .ok => 2

/-- The registers SYSMEM_STATUS reads back, in the arm path's write order. -/
def iatuRegOrder : List Nat :=
  [iatuLowerBase, iatuUpperBase, iatuLowerTarget, iatuUpperTarget, iatuLowerLimit,
    iatuUpperLimit, iatuRegionCtrl1, iatuRegionCtrl2, iatuRegionCtrl3]

/-- The tier sizes and results, from tier `i` on. -/
def outTiers (c : DeviceContext) (i : Nat) : List UInt64 → Drv Unit
  | [] => return ()
  | size :: sizes => do
    outU64 (24 + 8 * i) size
    outU32 (48 + 4 * i) (c.sysmemTierResult i).code
    outTiers c (i + 1) sizes

/-- Copy a probe record out. -/
def outProbe (off : Nat) (p : SysmemProbe) : Drv Unit := do
  outU64 off p.offset
  outU32 (off + 8) p.wrote0
  outU32 (off + 12) p.read0
  outU32 (off + 16) p.wrote1
  outU32 (off + 20) p.read1

/-- Read region 0's registers back into the output, from entry `i` on. -/
def outIatu (c : DeviceContext) (i : Nat) : List Nat → Drv Unit
  | [] => return ()
  | reg :: regs => do
    let v ← readRegister c.bar2Iatu (iatuBase + reg)
    outU32 (76 + 4 * i) v
    outIatu c (i + 1) regs

/-- The live readback, skipped while restricted or without BAR2. -/
def outIatuLive (c : DeviceContext) : Drv Unit := do
  if !c.needsHwInit && c.bar2Iatu.isSome then
    outIatu c 0 iatuRegOrder
    outU32 72 1
  else return ()

/-- The part of SYSMEM_STATUS under ArcLock. -/
def sysmemStatusLocked : Drv Unit := do
  let c ← load
  outU32 0 c.sysmemStage.code
  outU32 4 c.sysmemLastStatus.code
  outU64 8 c.sysmemSize
  outU64 16 c.sysmemPhys
  outTiers c 0 sysmemTiers
  outU32 60 c.sysmemNocIdRaw
  outU32 64 c.pcieTileX
  outU32 68 (if c.sysmemVerified then 1 else 0)
  outProbe 112 (c.sysmemProbes 0)
  outProbe 136 (c.sysmemProbes 1)
  outProbe 160 (c.sysmemProbes 2)
  outIatuLive c

/-- `TtWindIoctlSysmemStatus`. -/
def ioctlSysmemStatus : Drv (NtStatus × Nat) := do
  let status ← retrieveOutputBuffer 192
  if !status.ok then return (status, 0)
  outZero 192
  acquire .arc
  sysmemStatusLocked
  release .arc
  return (.success, 192)

/-- The allocation granularity of views of `\Device\PhysicalMemory`. -/
def viewAlign : UInt64 := 0x10000

/-- `TtWindMapSysmemToUser`, for the record at `addr`: the view's base, and the address
of the first requested byte. -/
def mapSysmemToUser (phys length : UInt64) (process : Process) (addr : Nat) :
    Drv (Except NtStatus (UInt64 × UInt64)) := do
  let status ← op .openSection
  if !status.ok then return .error status
  let alignedPhys := phys &&& ~~~(viewAlign - 1)
  let delta := phys - alignedPhys
  let viewSize := length + delta
  let saved ← attachTo process
  let base ← op (.mapView alignedPhys viewSize addr)
  detachFrom saved
  op .closeSection
  match base with
  | .error status => return .error status
  | .ok base => return .ok (base, base + delta)

/-- The alignment check of MAP_SYSMEM. -/
def mapSysmemAligned (offset length : UInt64) : Bool :=
  !(offset &&& (pageSize - 1) != 0 || length &&& (pageSize - 1) != 0 || length == 0)

/-- The bounds check of MAP_SYSMEM. -/
def mapSysmemInBounds (c : DeviceContext) (offset length : UInt64) : Bool :=
  !(c.sysmemSize < length || c.sysmemSize - length < offset)

/-- `TtWindIoctlMapSysmem`. -/
def ioctlMapSysmem (fileObject : Option FileObject) : Drv (NtStatus × Nat) := do
  let some fo := fileObject | return (.invalidHandle, 0)
  let status ← retrieveInputBuffer 16
  if !status.ok then return (status, 0)
  let status ← retrieveOutputBuffer 16
  if !status.ok then return (status, 0)
  let offset ← inU64 0
  let length ← inU64 8
  if !mapSysmemAligned offset length then return (.invalidParameter, 0)
  acquire .arc
  let available := (← load).sysmemVerified
  release .arc
  if !available then return (.deviceNotReady, 0)
  let c ← load
  if !mapSysmemInBounds c offset length then return (.invalidParameter, 0)
  let process ← mappingProcess
  let some addr ← op .allocPool | return (.insufficientResources, 0)
  op (.referenceProcess process)
  let c ← load
  match ← mapSysmemToUser (c.sysmemPhys + offset) length process addr with
  | .error status => do
    op (.dereferenceProcess process)
    op (.freePool addr)
    return (status, 0)
  | .ok (sectionBase, userVa) => do
    let mapping : UserMapping := {
      addr, fileObject := fo, process, kind := .sectionView, mdl := none, sectionBase, userVa
      length, tlbId := -1 }
    locked (.appendMapping mapping)
    outZero 16
    outU64 0 userVa
    -- the input is read again, after the output was zeroed
    outU64 8 (← inU64 8)
    return (.success, 16)

end TtWind
