import TtWind.Driver.Reset

/-!
# Hardware arrival and departure (device.c)

PrepareHardware records the BARs, maps the register blocks and allocates the
sysmem buffer; ReleaseHardware undoes it, first revoking every user mapping.
-/

set_option autoImplicit false

namespace TtWind

/-- The type of a resource descriptor. -/
inductive ResourceType where
  | memory
  | memoryLarge
  | other
  deriving DecidableEq, Repr

/-- A `CM_PARTIAL_RESOURCE_DESCRIPTOR`. -/
structure ResourceDesc where
  type : ResourceType
  flags : UInt16 := 0
  start : UInt64 := 0
  length : UInt32 := 0
  deriving DecidableEq, Repr

def memoryLarge40 : UInt16 := 0x0200
def memoryLarge48 : UInt16 := 0x0400
def memoryLarge64 : UInt16 := 0x0800

/-- `TtWindMemoryDescriptorLength`. -/
def memoryDescriptorLength (d : ResourceDesc) : UInt64 :=
  if d.type = .memory then d.length.toUInt64
  else if d.flags &&& memoryLarge40 ≠ 0 then d.length.toUInt64 <<< 8
  else if d.flags &&& memoryLarge48 ≠ 0 then d.length.toUInt64 <<< 16
  else if d.flags &&& memoryLarge64 ≠ 0 then d.length.toUInt64 <<< 32
  else 0

/-- The 16-bit register at an offset of a config image. -/
def headerWord (header : List UInt8) (off : Nat) : UInt16 :=
  UInt16.ofNat (leNat (fun i => header.getD i 0) off 2)

/-- A type 0 header: the header type byte, less its multifunction bit, is zero. -/
def isDeviceType (header : List UInt8) : Bool := header.getD 0x0E 0 &&& 0x7F == 0

/-- Get the bus interface, unless it is already held. -/
def queryBusInterface : Drv NtStatus := do
  let c ← load
  if c.busIfValid then return .success
  let status ← op .queryInterface
  if !status.ok then return status
  store fun c => { c with busIfValid := true }
  return status

/-- `TtWindReadPciIdentity`. -/
def readPciIdentity : Drv NtStatus := do
  let status ← queryBusInterface
  if !status.ok then return status
  let header ← op (.getBusData 0 64)
  if header.length ≠ 64 then return .deviceDataError
  store fun c => { c with vendorId := headerWord header 0, deviceId := headerWord header 2 }
  store fun c => if isDeviceType header then
      { c with subsystemVendorId := headerWord header 0x2C, subsystemId := headerWord header 0x2E }
    else c
  match ← op .queryProperty with
  | .error status => return status
  | .ok busNumber =>
    match ← op .queryProperty with
    | .error status => return status
    | .ok address => do
      store fun c => { c with
        bus := busNumber.toUInt8, device := (address >>> 16 &&& 0xFFFF).toUInt8
        function := (address &&& 0xFFFF).toUInt8, pciDomain := 0 }
      return .success

/-- The loop over the translated resources; only memory ones count, six at most. -/
def recordBars : List ResourceDesc → Drv Unit
  | [] => return ()
  | d :: ds => do
    if d.type = .other then recordBars ds
    else
      let c ← load
      if maxBars ≤ c.barCount then return ()
      store fun c => { c with
        bars := Function.update c.bars c.barCount ⟨d.start, memoryDescriptorLength d⟩
        barCount := c.barCount + 1 }
      recordBars ds

/-- Map a block the driver can do without, if the BAR covers it. -/
def mapOptional (covered : Bool) (phys : UInt64) (len : Nat)
    (set : IoPtr → DeviceContext → DeviceContext) : Drv Unit := do
  if covered then
    let p ← op (.mapIoSpace phys len)
    store (set p)
  else return ()

/-- `TtWindEvtDevicePrepareHardware`. -/
def evtDevicePrepareHardware (resources : List ResourceDesc) : Drv NtStatus := do
  let status ← readPciIdentity
  if !status.ok then return status
  store fun c => { c with barCount := 0, bars := fun _ => {} }
  recordBars resources
  let c ← load
  let bar0 := c.bars 0
  if c.barCount = 0 ∨ bar0.size < tlbRegsStart + UInt64.ofNat tlbRegsLen then
    return .deviceConfigurationError
  let p ← op (.mapIoSpace (bar0.phys + tlbRegsStart) tlbRegsLen)
  store fun c => { c with tlbRegs := p }
  if p = none then return .insufficientResources
  let q ← op (.mapIoSpace (bar0.phys + kernelTlbStart) tlb2mSize.toNat)
  store fun c => { c with kernelTlb := q }
  if q = none then
    op (.unmapIoSpace p tlbRegsLen)
    store fun c => { c with tlbRegs := none }
    return .insufficientResources
  mapOptional (arcApbBar0Start + UInt64.ofNat arcApbBar0Len ≤ bar0.size)
    (bar0.phys + arcApbBar0Start) arcApbBar0Len fun p c => { c with arcApbAxi := p }
  mapOptional (nocIdPageStart + UInt64.ofNat nocIdPageLen ≤ bar0.size)
    (bar0.phys + nocIdPageStart) nocIdPageLen fun p c => { c with nocIdRegs := p }
  let bar2 := c.bars bar2ResourceIndex
  mapOptional (bar2ResourceIndex < c.barCount && UInt64.ofNat iatuRegsLen ≤ bar2.size)
    bar2.phys iatuRegsLen fun p c => { c with bar2Iatu := p }
  sysmemAllocate
  return .success

/-- Unmap a register block and forget its pointer, if it is mapped. -/
def releasePtr (get : DeviceContext → IoPtr) (clear : DeviceContext → DeviceContext) (len : Nat) :
    Drv Unit := do
  let c ← load
  if get c ≠ none then
    op (.unmapIoSpace (get c) len)
    store clear
  else return ()

/-- Give the bus interface back, if it is held. -/
def releaseBusInterface : Drv Unit := do
  let c ← load
  if c.busIfValid then
    op .dereferenceInterface
    store fun c => { c with busIfValid := false }
  else return ()

/-- What ReleaseHardware does once every user mapping is revoked. -/
def releaseResources : Drv Unit := do
  acquire .arc
  releasePtr (·.kernelTlb) (fun c => { c with kernelTlb := none }) tlb2mSize.toNat
  releasePtr (·.arcApbAxi) (fun c => { c with arcApbAxi := none }) arcApbBar0Len
  releasePtr (·.bar2Iatu) (fun c => { c with bar2Iatu := none }) iatuRegsLen
  releasePtr (·.nocIdRegs) (fun c => { c with nocIdRegs := none }) nocIdPageLen
  store fun c => { c with sysmemVerified := false, arcRoute := .none }
  release .arc
  sysmemFree
  acquire .state
  releasePtr (·.tlbRegs) (fun c => { c with tlbRegs := none }) tlbRegsLen
  release .state
  releaseBusInterface
  store fun c => { c with barCount := 0, bars := fun _ => {} }

/-- `TtWindEvtDeviceReleaseHardware`. -/
def evtDeviceReleaseHardware : Drv Unit := do
  revokeAllMappings
  releaseResources

end TtWind
