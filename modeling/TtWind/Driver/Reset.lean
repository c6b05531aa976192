import TtWind.Driver.Arc

/-!
# Reset and recovery (reset.c)

RESET_DEVICE arms the chip's own reset through config space and returns;
POST_RESET recovers. Between the two the device is restricted (`needsHwInit`).
-/

set_option autoImplicit false

namespace TtWind

def pciCfgVendorId : Nat := 0x00
def pciCfgCommand : Nat := 0x04
def pciCmdParity : UInt16 := 0x0040

def ifcTimerControlOff : Nat := 0x930
def ifcTimerTargetOff : Nat := 0x934
def ifcTimerTarget : UInt32 := 0x1
def ifcTimerEn : UInt32 := 0x1
def ifcForcePending : UInt32 := 0x10

def resetPowerupTries : Nat := 5
def resetPowerupRetryMs : Nat := 1000

/-- A little-endian 16-bit register's value. -/
def word16 (data : List UInt8) : UInt16 := UInt16.ofNat (leNat (fun i => data.getD i 0) 0 2)

/-- `TtWindDevicePresent`. -/
def devicePresent : Drv Bool := do
  let (data, full) ← cfgRead pciCfgVendorId 2
  let c ← load
  return full && word16 data == c.vendorId

/-- Dword `i` of a saved config image, as its bytes. -/
def savedDword (saved : Nat → UInt8) (i : Nat) : List UInt8 :=
  (List.range 4).map fun k => saved (4 * i + k)

/-- The restore loop: every dword but the command register's. -/
def restoreDwords (saved : Nat → UInt8) (ok : Bool) : List Nat → Drv Bool
  | [] => return ok
  | i :: is =>
    if i = pciCfgCommand / 4 then restoreDwords saved ok is
    else do
      let written ← cfgWrite (i * 4) (savedDword saved i)
      restoreDwords saved (ok && written) is

/-- `TtWindResetRestoreConfig`: the command register comes last. -/
def resetRestoreConfig (saved : Nat → UInt8) : Drv Bool := do
  let ok ← restoreDwords saved true (List.range (pciCfgSaveBytes / 4))
  let written ← cfgWrite pciCfgCommand (savedDword saved (pciCfgCommand / 4))
  return ok && written

/-- `SavedConfig` after a config read into it; a short read overwrites a prefix. -/
def DeviceContext.saveConfig (c : DeviceContext) (data : List UInt8) : DeviceContext :=
  { c with savedConfig := fun i => data.getD i (c.savedConfig i) }

/-! ## RESET_DEVICE -/

/-- Save config space, only when not already restricted: on a re-arm the live config is
post-reset junk. -/
def saveConfigOnce : Drv NtStatus := do
  let c ← load
  if c.needsHwInit then return .success
  let (data, full) ← cfgRead 0 pciCfgSaveBytes
  store fun c => c.saveConfig data
  if !full then return .deviceDataError
  store fun c => { c with savedConfigValid := true }
  return .success

/-- The resetting handle is carried forward to the new generation. -/
def carryForward : Option FileObject → Drv Unit
  | none => return ()
  | some fo => do
    let c ← load
    op (.setFileGen fo c.resetGeneration)

/-- Everything RESET_DEVICE does under ArcLock. -/
def armReset (fileObject : Option FileObject) : Drv NtStatus := do
  let present ← devicePresent
  if !present then return .deviceDoesNotExist
  let status ← saveConfigOnce
  if !status.ok then return status
  let (data, full) ← cfgRead pciCfgCommand 2
  if !full then return .deviceDataError
  let command := word16 data ||| pciCmdParity
  let written ← cfgWrite pciCfgCommand (leBytes command.toNat 2)
  if !written then return .deviceDataError
  locked .fence
  carryForward fileObject
  -- restrict before arm
  store fun c => { c with needsHwInit := true }
  store fun c => { c with sysmemVerified := false }
  let _ ← cfgWrite ifcTimerTargetOff (leBytes ifcTimerTarget.toNat 4)
  let _ ← cfgWrite ifcTimerControlOff (leBytes (ifcTimerEn ||| ifcForcePending).toNat 4)
  return .success

/-- `TtWindIoctlResetDevice`. -/
def ioctlResetDevice (fileObject : Option FileObject) : Drv NtStatus := do
  let status ← retrieveInputBuffer 8
  if !status.ok then return status
  let flags ← inU32 0
  let reserved ← inU32 4
  if flags ≠ 0 ∨ reserved ≠ 0 then return .invalidParameter
  let c ← load
  if !c.busIfValid || c.barCount == 0 then return .deviceNotReady
  let busy ← locked .anyMapping
  if busy then return .deviceBusy
  acquire .arc
  let status ← armReset fileObject
  release .arc
  return status

/-! ## POST_RESET -/

/-- Everything POST_RESET does under ArcLock: its status, and whether the device has
just been recovered. -/
def recoverReset : Drv (NtStatus × Bool) := do
  let c ← load
  if !c.needsHwInit then return (.success, false)
  let c ← load
  if c.tlbRegs = none ∨ c.kernelTlb = none ∨ !c.savedConfigValid then
    return (.deviceNotReady, false)
  let present ← devicePresent
  if !present then return (.deviceDoesNotExist, false)
  let (data, full) ← cfgRead pciCfgCommand 2
  if !full then return (.deviceDoesNotExist, false)
  if word16 data &&& pciCmdParity ≠ 0 then return (.deviceBusy, false)
  let c ← load
  let restored ← resetRestoreConfig c.savedConfig
  if !restored then return (.deviceDataError, false)
  -- best effort: on a short read the rest of the image stays
  let (data, _) ← cfgRead 0 pciCfgSaveBytes
  store fun c => c.saveConfig data
  let status ← kernelTlbSanityCheck
  if !status.ok then return (.ioDeviceError, false)
  store fun c => { c with needsHwInit := false }
  return (.success, true)

/-- The power-up attempts, `tries` at most. -/
def powerUpRetry : Nat → Drv Unit
  | 0 => return ()
  | tries + 1 => do
    let status ← arcPowerUp
    if status.ok then return ()
    if tries = 0 then return ()
    op (.stall (resetPowerupRetryMs * 1000))
    powerUpRetry tries

/-- `TtWindIoctlPostReset`. -/
def ioctlPostReset : Drv NtStatus := do
  let status ← retrieveInputBuffer 8
  if !status.ok then return status
  let flags ← inU32 0
  let reserved ← inU32 4
  if flags ≠ 0 ∨ reserved ≠ 0 then return .invalidParameter
  let c ← load
  if !c.busIfValid || c.barCount == 0 then return .deviceNotReady
  acquire .arc
  let (status, recovered) ← recoverReset
  release .arc
  if !recovered then return status
  powerUpRetry resetPowerupTries
  let _ ← sysmemArm
  return .success

end TtWind
