import TtWind.Driver.Sysmem

/-!
# The ARC firmware mailbox (arc.c)

Kernel NOC access through the reserved window, discovery of the firmware's
message queue, the two rings, and one synchronous exchange. A polling loop with
a deadline takes the number of polls that fit before it from the clock and is a
recursion on that number.
-/

set_option autoImplicit false

namespace TtWind

/-! ## Kernel NOC access -/

/-- The configuration of `TtWindArcNocPtr`: the 2 MiB block of `a` on the ARC tile. -/
def arcConfig (a : UInt64) : NocTlbConfig :=
  { addr := a &&& ~~~(tlb2mSize - 1), xEnd := 8, yEnd := 0, noc := 0, ordering := 1 }

/-- `TtWindArcNocPtr`: aim the kernel window, answer the pointer to `a` within it. -/
def arcNocPtr (a : UInt64) : Drv (IoPtr × Nat) := do
  programTlb2M kernelTlbIndex (arcConfig a)
  let c ← load
  return (c.kernelTlb, (a &&& (tlb2mSize - 1)).toNat)

def arcNocRead32 (a : UInt64) : Drv UInt32 := do
  let (p, off) ← arcNocPtr a
  readRegister p off

def arcNocWrite32 (a : UInt64) (v : UInt32) : Drv Unit := do
  let (p, off) ← arcNocPtr a
  writeRegister p off v

def arcApbNocLowBase : UInt64 := 0x80000000
def arcApbNocHighBase : UInt64 := 0x880000000

/-- `TtWindArcApbRead32Via`. -/
def arcApbRead32Via (route : ArcRoute) (apbOffset : UInt32) : Drv UInt32 :=
  match route with
  | .nocLow => arcNocRead32 (arcApbNocLowBase + apbOffset.toUInt64)
  | .nocHigh => arcNocRead32 (arcApbNocHighBase + apbOffset.toUInt64)
  | .axi => do
    let c ← load
    readRegister c.arcApbAxi apbOffset.toNat
  | .none => return 0xFFFFFFFF

/-- `TtWindArcApbWrite32Via`. -/
def arcApbWrite32Via (route : ArcRoute) (apbOffset v : UInt32) : Drv Unit :=
  match route with
  | .nocLow => arcNocWrite32 (arcApbNocLowBase + apbOffset.toUInt64) v
  | .nocHigh => arcNocWrite32 (arcApbNocHighBase + apbOffset.toUInt64) v
  | .axi => do
    let c ← load
    writeRegister c.arcApbAxi apbOffset.toNat v
  | .none => return ()

/-- `TtWindArcApbRead32`: through the discovered route. -/
def arcApbRead32 (apbOffset : UInt32) : Drv UInt32 := do
  let c ← load
  arcApbRead32Via c.arcRoute apbOffset

def arcCsmBase : UInt32 := 0x10000000
def arcCsmSize : UInt32 := 0x80000

/-- The range and alignment check of the CSM accessors. -/
def csmRejects (a : UInt32) : Bool :=
  a < arcCsmBase || arcCsmBase + arcCsmSize - 4 < a || a &&& 3 != 0

/-- `TtWindArcCsmRead32`. -/
def arcCsmRead32 (a : UInt32) : Drv (Except NtStatus UInt32) :=
  if csmRejects a then return .error .invalidAddress
  else do return .ok (← arcNocRead32 a.toUInt64)

/-- `TtWindArcCsmWrite32`. -/
def arcCsmWrite32 (a v : UInt32) : Drv NtStatus :=
  if csmRejects a then return .invalidAddress
  else do
    arcNocWrite32 a.toUInt64 v
    return .success

/-! ## Queue discovery -/

def arcBootStatus : UInt32 := 0x30408
def arcBootStatusReady : UInt32 := 1
def arcMsgQcbPtr : UInt32 := 0x3042C
def arcMsiFifo : UInt32 := 0xB0000
def arcMiscCntl : UInt32 := 0x30100
def arcMiscCntlIrq0 : UInt32 := 0x10000
def arcReadyTimeoutMs : Nat := 500
def arcMsgTimeoutMs : Nat := 1000

/-- `TtWindArcRouteOrder`. -/
def arcRouteOrder : List ArcRoute := [.nocLow, .nocHigh, .axi]

/-- The raw observations ARC_STATUS reports. -/
structure ArcReport where
  bootStatusLow : UInt32 := 0
  bootStatusHigh : UInt32 := 0
  bootStatusAxi : UInt32 := 0
  route : ArcRoute := .none
  qcbPtr : UInt32 := 0
  queueBase : UInt32 := 0
  numEntries : UInt32 := 0
  deriving DecidableEq, Repr

/-- The boot status last read through each route. -/
abbrev BootStatus := ArcRoute → UInt32

/-- One poll round over the candidate routes: the boot status of each, whether all
read all-1s, and whether one answered ready. -/
def probeRoutes (boot : BootStatus) (allDead : Bool) :
    List ArcRoute → Drv (BootStatus × Bool × Bool)
  | [] => return (boot, allDead, false)
  | route :: rest => do
    let c ← load
    if route = .axi ∧ c.arcApbAxi = none then
      probeRoutes boot allDead rest
    else
      let v ← arcApbRead32Via route arcBootStatus
      let boot := Function.update boot route v
      let allDead := allDead && v == 0xFFFFFFFF
      if v ≠ 0xFFFFFFFF ∧ v &&& arcBootStatusReady ≠ 0 then
        store fun c => { c with arcRoute := route }
        return (boot, allDead, true)
      else
        probeRoutes boot allDead rest

/-- One poll round, and what to do when some route is alive but none is ready. -/
def pollRound (boot : BootStatus) (again : BootStatus → Drv (NtStatus × BootStatus)) :
    Drv (NtStatus × BootStatus) := do
  let (boot, allDead, found) ← probeRoutes boot true arcRouteOrder
  if found then return (.success, boot)
  -- every route reads all-1s: the NOC is hung or the device is gone
  if allDead then return (.deviceDoesNotExist, boot)
  again boot

/-- The discovery loop: poll rounds until a route is ready, all are dead, or the
deadline is past. -/
def pollRoutes (boot : BootStatus) : Nat → Drv (NtStatus × BootStatus)
  | 0 => pollRound boot fun boot => return (.deviceNotReady, boot)
  | polls + 1 => pollRound boot fun boot => do
    op (.stall 200)
    pollRoutes boot polls

/-- The whole ring fits in the CSM. -/
def ringFits (base numEntries : UInt32) : Bool :=
  !(base < arcCsmBase ||
    arcCsmBase.toUInt64 + arcCsmSize.toUInt64 < base.toUInt64 + 32 + 2 * numEntries.toUInt64 * 32)

/-- `TtWindArcLocateQueue`. The report is what ARC_STATUS shows; every caller gets it. -/
def arcLocateQueue : Drv (NtStatus × UInt32 × UInt32 × ArcReport) := do
  let polls ← op (.deadline arcReadyTimeoutMs)
  let (status, boot) ← pollRoutes (fun _ => 0xFFFFFFFF) polls
  let report : ArcReport := {
    bootStatusLow := boot .nocLow, bootStatusHigh := boot .nocHigh, bootStatusAxi := boot .axi }
  if !status.ok then return (status, 0, 0, report)
  let c ← load
  let report := { report with route := c.arcRoute }
  let qcbAddr ← arcApbRead32 arcMsgQcbPtr
  let report := { report with qcbPtr := qcbAddr }
  match ← arcCsmRead32 (qcbAddr + 0) with
  | .error status => return (status, 0, 0, report)
  | .ok base =>
    match ← arcCsmRead32 (qcbAddr + 4) with
    | .error status => return (status, 0, 0, report)
    | .ok queueInfo =>
      let numEntries := queueInfo &&& 0xFF
      let report := { report with queueBase := base, numEntries := numEntries }
      if numEntries = 0 then return (.notSupported, base, numEntries, report)
      if !ringFits base numEntries then return (.invalidAddress, base, numEntries, report)
      return (.success, base, numEntries, report)

/-! ## The rings -/

def reqWptr (base : UInt32) : UInt32 := base + 0x00
def resRptr (base : UInt32) : UInt32 := base + 0x04
def reqRptr (base : UInt32) : UInt32 := base + 0x10
def resWptr (base : UInt32) : UInt32 := base + 0x14
def arcQueueHeaderSize : UInt32 := 32

/-- The eight words of a message, header first. -/
def ArcMsg.words (m : ArcMsg) : List UInt32 := m.header :: List.ofFn m.payload

/-- The message eight words make. -/
def ArcMsg.ofWords (l : List UInt32) : ArcMsg :=
  ⟨l.getD 0 0, fun i => l.getD (i + 1) 0⟩

/-- Read a ring pointer; all-1s means the device is gone. -/
def readRingPtr (a : UInt32) : Drv (Except NtStatus UInt32) := do
  match ← arcCsmRead32 a with
  | .error status => return .error status
  | .ok v => if v = 0xFFFFFFFF then return .error .deviceDoesNotExist else return .ok v

/-- The loop that writes a message's words to consecutive CSM dwords. -/
def csmWriteWords (a : UInt32) : List UInt32 → Drv NtStatus
  | [] => return .success
  | v :: vs => do
    let status ← arcCsmWrite32 a v
    if !status.ok then return status
    csmWriteWords (a + 4) vs

/-- The loop that reads consecutive CSM dwords. -/
def csmReadWords (a : UInt32) : Nat → Drv (Except NtStatus (List UInt32))
  | 0 => return .ok []
  | k + 1 => do
    match ← arcCsmRead32 a with
    | .error status => return .error status
    | .ok v =>
      match ← csmReadWords (a + 4) k with
      | .error status => return .error status
      | .ok vs => return .ok (v :: vs)

/-- `TtWindArcTryPush`. -/
def arcTryPush (msg : ArcMsg) (queueBase numEntries : UInt32) : Drv NtStatus := do
  let requestBase := queueBase + arcQueueHeaderSize
  match ← readRingPtr (reqWptr queueBase) with
  | .error status => return status
  | .ok wptr =>
    match ← readRingPtr (reqRptr queueBase) with
    | .error status => return status
    | .ok rptr =>
      if (wptr - rptr) % (2 * numEntries) ≥ numEntries then return .deviceBusy
      let slot := wptr % numEntries
      let status ← csmWriteWords (requestBase + slot * 32) msg.words
      if !status.ok then return status
      arcCsmWrite32 (reqWptr queueBase) ((wptr + 1) % (2 * numEntries))

/-- `TtWindArcTryPop`. -/
def arcTryPop (queueBase numEntries : UInt32) : Drv (Except NtStatus ArcMsg) := do
  let responseBase := queueBase + arcQueueHeaderSize + numEntries * 32
  match ← readRingPtr (resRptr queueBase) with
  | .error status => return .error status
  | .ok rptr =>
    match ← readRingPtr (resWptr queueBase) with
    | .error status => return .error status
    | .ok wptr =>
      if (wptr - rptr) % (2 * numEntries) = 0 then return .error .deviceBusy
      let slot := rptr % numEntries
      match ← csmReadWords (responseBase + slot * 32) 8 with
      | .error status => return .error status
      | .ok words =>
        let status ← arcCsmWrite32 (resRptr queueBase) ((rptr + 1) % (2 * numEntries))
        if !status.ok then return .error status
        return .ok (.ofWords words)

/-! ## One exchange -/

/-- Discard stale responses: at most as many pops as the ring has entries. -/
def drainResponses (queueBase numEntries : UInt32) : Nat → Drv Unit
  | 0 => return ()
  | i + 1 => do
    match ← arcTryPop queueBase numEntries with
    | .error _ => return ()
    | .ok _ => drainResponses queueBase numEntries i

/-- One pop of the response loop: anything but "busy" ends it. -/
def pollRoundResponse (queueBase numEntries : UInt32) (again : Drv (Except NtStatus ArcMsg)) :
    Drv (Except NtStatus ArcMsg) := do
  match ← arcTryPop queueBase numEntries with
  | .error .deviceBusy => again
  | r => return r

/-- The response loop: pop until something comes or the deadline is past. -/
def pollResponse (queueBase numEntries : UInt32) : Nat → Drv (Except NtStatus ArcMsg)
  | 0 => pollRoundResponse queueBase numEntries (return .error .ioTimeout)
  | polls + 1 => pollRoundResponse queueBase numEntries do
    op (.stall 200)
    pollResponse queueBase numEntries polls

/-- Ring the doorbell of the discovered route. -/
def arcDoorbell : Drv Unit := do
  let c ← load
  if c.arcRoute = .axi then arcApbWrite32Via c.arcRoute arcMiscCntl arcMiscCntlIrq0
  else arcApbWrite32Via c.arcRoute arcMsiFifo 0

/-- Push, ring, wait: the exchange once the queue is located. -/
def arcExchange (msg : ArcMsg) (queueBase numEntries : UInt32) : Drv (Except NtStatus ArcMsg) := do
  drainResponses queueBase numEntries numEntries.toNat
  let status ← arcTryPush msg queueBase numEntries
  if !status.ok then return .error status
  arcDoorbell
  let polls ← op (.deadline arcMsgTimeoutMs)
  pollResponse queueBase numEntries polls

/-- The part of an exchange under ArcLock. -/
def arcSendLocked (msg : ArcMsg) : Drv (Except NtStatus ArcMsg) := do
  let c ← load
  -- no access while a reset is in flight
  if c.needsHwInit then return .error .reinitializationNeeded
  if c.kernelTlb = none ∨ c.tlbRegs = none then return .error .deviceNotReady
  let (status, queueBase, numEntries, _) ← arcLocateQueue
  if !status.ok then return .error status
  arcExchange msg queueBase numEntries

/-- `TtWindArcMsgSendSync`. -/
def arcMsgSendSync (msg : ArcMsg) : Drv (Except NtStatus ArcMsg) := do
  acquire .arc
  let result ← arcSendLocked msg
  release .arc
  return result

/-! ## Power -/

/-- `TtWindArcSendChecked`: a zero response header is required. -/
def arcSendChecked (header : UInt32) : Drv NtStatus := do
  match ← arcMsgSendSync { header } with
  | .error status => return status
  | .ok msg => if msg.header ≠ 0 then return .deviceProtocolError else return .success

def arcMsgAsicState0 : UInt32 := 0xA0
def arcMsgAsicState3 : UInt32 := 0xA3
/-- `POWER_SETTING | validity << 8 | flags << 16`. -/
def arcPowerSetting (flags : UInt32) : UInt32 :=
  (0x21 : UInt32) ||| ((0x0F : UInt32) <<< 8) ||| (flags <<< 16)
def arcPowerFlagsUp : UInt32 := 0x7FFE
def arcPowerFlagsDown : UInt32 := 0x0000

/-- `TtWindArcPowerUp`. -/
def arcPowerUp : Drv NtStatus := do
  let status ← arcSendChecked arcMsgAsicState0
  if !status.ok then return status
  arcSendChecked (arcPowerSetting arcPowerFlagsUp)

/-- `TtWindArcPowerDown`: best effort. -/
def arcPowerDown : Drv Unit := do
  let _ ← arcSendChecked (arcPowerSetting arcPowerFlagsDown)
  let _ ← arcSendChecked arcMsgAsicState3

/-- `TtWindEvtDeviceSelfManagedIoInit`; a failure of either half is not one of the start. -/
def evtDeviceSelfManagedIoInit : Drv Unit := do
  let _ ← arcPowerUp
  let _ ← sysmemArm

/-- `TtWindEvtDeviceSelfManagedIoRestart`. -/
def evtDeviceSelfManagedIoRestart : Drv Unit := evtDeviceSelfManagedIoInit

/-- `TtWindEvtDeviceSelfManagedIoSuspend`. -/
def evtDeviceSelfManagedIoSuspend : Drv Unit := do
  sysmemInvalidate
  arcPowerDown

/-! ## The mailbox ioctls -/

/-- The dwords of the input structure. -/
def inWords (off : Nat) : Nat → Drv (List UInt32)
  | 0 => return []
  | k + 1 => do
    let v ← inU32 off
    return v :: (← inWords (off + 4) k)

/-- Store dwords in the output structure. -/
def outWords (off : Nat) : List UInt32 → Drv Unit
  | [] => return ()
  | v :: vs => do
    outU32 off v
    outWords (off + 4) vs

/-- `TtWindIoctlSmcMsg`. -/
def ioctlSmcMsg : Drv (NtStatus × Nat) := do
  let status ← retrieveInputBuffer 32
  if !status.ok then return (status, 0)
  let status ← retrieveOutputBuffer 32
  if !status.ok then return (status, 0)
  let words ← inWords 0 8
  match ← arcMsgSendSync (.ofWords words) with
  | .error status => return (status, 0)
  | .ok msg => do
    outZero 32
    outWords 0 msg.words
    return (.success, 32)

/-- The `TTWIND_ARC_STAGE_*` an observed probe reports. -/
def arcStage (status : NtStatus) (report : ArcReport) : UInt32 :=
  if status.ok then 3 else if report.route ≠ .none then 2 else 1

/-- `TTWIND_ARC_ROUTE_*`. -/
def ArcRoute.code : ArcRoute → UInt32
  | .none => 0
  | .nocLow => 1
  | .nocHigh => 2
  | .axi => 3

/-- The part of ARC_STATUS under ArcLock: the stage, the probe's status, the report. -/
def arcStatusLocked : Drv (UInt32 × NtStatus × ArcReport) := do
  let c ← load
  if c.needsHwInit then return (0, .reinitializationNeeded, {})
  if c.kernelTlb = none ∨ c.tlbRegs = none then return (0, .deviceNotReady, {})
  let (status, _, _, report) ← arcLocateQueue
  return (arcStage status report, status, report)

/-- `TtWindIoctlArcStatus`. -/
def ioctlArcStatus : Drv (NtStatus × Nat) := do
  let status ← retrieveOutputBuffer 40
  if !status.ok then return (status, 0)
  acquire .arc
  let (stage, status, report) ← arcStatusLocked
  release .arc
  outWords 0 [stage, status.code, report.bootStatusLow, report.bootStatusHigh,
    report.bootStatusAxi, report.route.code, report.qcbPtr, report.queueBase,
    report.numEntries, 0]
  return (.success, 40)

end TtWind
