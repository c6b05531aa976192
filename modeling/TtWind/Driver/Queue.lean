import TtWind.Driver.Device

/-!
# Dispatch (queue.c) and handle creation (driver.c)
-/

set_option autoImplicit false

namespace TtWind

/-- The `IOCTL_TTWIND_*` codes, and any other. -/
inductive Ioctl where
  | getDeviceInfo
  | mapBar
  | unmapBar
  | allocateTlb
  | freeTlb
  | configureTlb
  | mapTlb
  | smcMsg
  | resetDevice
  | arcStatus
  | postReset
  | querySysmem
  | mapSysmem
  | sysmemStatus
  | other (code : UInt32)
  deriving DecidableEq, Repr

/-- The loop over the BAR table, from entry `i` on. -/
def outBars (c : DeviceContext) (i : Nat) : Nat → Drv Unit
  | 0 => return ()
  | k + 1 => do
    outU64 (24 + 16 * i) (c.bars i).phys
    outU64 (32 + 16 * i) (c.bars i).size
    outBars c (i + 1) k

/-- `TtWindGetDeviceInfo`. -/
def getDeviceInfo : Drv (NtStatus × Nat) := do
  let status ← retrieveOutputBuffer 120
  if !status.ok then return (status, 0)
  outZero 120
  let c ← load
  outU16 0 c.vendorId
  outU16 2 c.deviceId
  outU16 4 c.subsystemVendorId
  outU16 6 c.subsystemId
  outU8 8 c.bus
  outU8 9 c.device
  outU8 10 c.function
  outU16 12 c.pciDomain
  outU32 16 (UInt32.ofNat c.barCount)
  outBars c 0 (min c.barCount maxBars)
  return (.success, 120)

/-- What the dispatcher still lets through while a reset is in flight. -/
def Ioctl.allowedRestricted : Ioctl → Bool
  | .getDeviceInfo | .querySysmem | .resetDevice | .postReset => true
  | _ => false

/-- A handler that writes no output. -/
def noOutput (p : Drv NtStatus) : Drv (NtStatus × Nat) := do return (← p, 0)

/-- The handler of each code. -/
def ioctlHandler (fileObject : Option FileObject) : Ioctl → Drv (NtStatus × Nat)
  | .getDeviceInfo => getDeviceInfo
  | .mapBar => ioctlMapBar fileObject
  | .unmapBar => noOutput (ioctlUnmapBar fileObject)
  | .allocateTlb => ioctlAllocateTlb fileObject
  | .freeTlb => noOutput (ioctlFreeTlb fileObject)
  | .configureTlb => noOutput (ioctlConfigureTlb fileObject)
  | .mapTlb => ioctlMapTlb fileObject
  | .smcMsg => ioctlSmcMsg
  | .resetDevice => noOutput (ioctlResetDevice fileObject)
  | .postReset => noOutput ioctlPostReset
  | .querySysmem => ioctlQuerySysmem
  | .mapSysmem => ioctlMapSysmem fileObject
  | .sysmemStatus => ioctlSysmemStatus
  | .arcStatus => ioctlArcStatus
  | .other _ => return (.invalidDeviceRequest, 0)

/-- The generation fence: the handle is from before the last armed reset. -/
def isStale : Option FileObject → Drv Bool
  | none => return false
  | some fo => do
    let g ← op (.fileGen fo)
    let c ← load
    return g ≠ c.resetGeneration

/-- `TtWindEvtIoDeviceControl`. -/
def evtIoDeviceControl (fileObject : Option FileObject) (code : Ioctl) : Drv Unit := do
  let stale ← isStale fileObject
  if stale then op (.complete .deviceRemoved 0)
  else
    let c ← load
    if c.needsHwInit && !code.allowedRestricted then op (.complete .reinitializationNeeded 0)
    else
      let (status, bytesWritten) ← ioctlHandler fileObject code
      op (.complete status bytesWritten)

/-- `TtWindEvtDeviceFileCreate`. -/
def evtDeviceFileCreate (fo : FileObject) : Drv Unit := do
  let c ← load
  op (.setFileGen fo c.resetGeneration)
  op (.complete .success 0)

end TtWind
