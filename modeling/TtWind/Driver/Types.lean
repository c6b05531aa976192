import Mathlib.Logic.Function.Basic

/-!
# Statuses, constants and the device context

The data of `ttwind.h` and `ttwind_ioctl.h`: NTSTATUS values, the Blackhole
geometry, and the per-device context the callbacks share. Pointers are optional
addresses, `none` being NULL. Arrays of fixed length are functions from the
index; `savedConfig` is kept as its 256 bytes, since a short config read
overwrites a prefix of them.
-/

set_option autoImplicit false

namespace TtWind

/-! ## Statuses -/

/-- The NTSTATUS values the driver produces, and any other the OS may hand it. -/
inductive NtStatus where
  | success
  | deviceBusy
  | invalidHandle
  | invalidParameter
  | invalidDeviceRequest
  | accessDenied
  | bufferTooSmall
  | insufficientResources
  | deviceDataError
  | deviceNotReady
  | ioTimeout
  | notSupported
  | deviceDoesNotExist
  | invalidAddress
  | deviceConfigurationError
  | invalidDeviceState
  | ioDeviceError
  | deviceProtocolError
  | notFound
  | reinitializationNeeded
  | deviceRemoved
  | other (code : UInt32)
  deriving DecidableEq, Repr

/-- The 32-bit value of a status. -/
def NtStatus.code : NtStatus → UInt32
  | .success => 0x00000000
  | .deviceBusy => 0x80000011
  | .invalidHandle => 0xC0000008
  | .invalidParameter => 0xC000000D
  | .invalidDeviceRequest => 0xC0000010
  | .accessDenied => 0xC0000022
  | .bufferTooSmall => 0xC0000023
  | .insufficientResources => 0xC000009A
  | .deviceDataError => 0xC000009C
  | .deviceNotReady => 0xC00000A3
  | .ioTimeout => 0xC00000B5
  | .notSupported => 0xC00000BB
  | .deviceDoesNotExist => 0xC00000C0
  | .invalidAddress => 0xC0000141
  | .deviceConfigurationError => 0xC0000182
  | .invalidDeviceState => 0xC0000184
  | .ioDeviceError => 0xC0000185
  | .deviceProtocolError => 0xC0000186
  | .notFound => 0xC0000225
  | .reinitializationNeeded => 0xC0000287
  | .deviceRemoved => 0xC00002B6
  | .other code => code

/-- `NT_SUCCESS`: the status is nonnegative as a signed 32-bit value. -/
def NtStatus.ok (s : NtStatus) : Bool := s.code < 0x80000000

/-! ## Identities -/

/-- A `WDFFILEOBJECT`: an open handle. -/
abbrev FileObject := Nat

/-- A `PEPROCESS`. -/
abbrev Process := Nat

/-- A kernel mapping's base address (`PUCHAR`); NULL is `none`. -/
abbrev IoPtr := Option Nat

/-- The two wait locks of the device context. -/
inductive Lock where
  | arc
  | state
  deriving DecidableEq, Repr

/-! ## Geometry (ttwind.h) -/

def pageSize : UInt64 := 0x1000
def maxBars : Nat := 6
def maxMapBytes : UInt64 := 8 * 1024 * 1024
def pciCfgSaveBytes : Nat := 256

def tlb2mCount : Nat := 202
def tlb2mShift : UInt64 := 21
def tlb2mSize : UInt64 := 2 * 1024 * 1024
def tlb4gCount : Nat := 8
def tlbRegSize : Nat := 12
def tlbRegsStart : UInt64 := 0x1FC00000
def tlbRegsLen : Nat := 0x1000
def tlbStridedCount : Nat := 32
def tlbStridedRegSize : Nat := 4
def tlbStridedRegsOffset : Nat := (tlb2mCount + tlb4gCount) * tlbRegSize

/-- The topmost 2 MiB window, reserved for the kernel's own NOC access. -/
def kernelTlbIndex : Nat := tlb2mCount - 1
def kernelTlbStart : UInt64 := 201 * tlb2mSize

def arcApbBar0Start : UInt64 := 0x1FF00000
def arcApbBar0Len : Nat := 0x00100000

def noc2axiCfgStart : UInt64 := 0x1FD00000
def nocIdOffset : UInt64 := 0x4044
def nocIdPageStart : UInt64 := noc2axiCfgStart + (nocIdOffset &&& ~~~0xFFF)
def nocIdPageLen : Nat := 0x1000

def bar2ResourceIndex : Nat := 1
def iatuBase : Nat := 0x1000
def iatuRegsLen : Nat := 0x3000
def iatuOutboundRegions : Nat := 16
def iatuRegionStride : Nat := 0x200
def iatuRegionCtrl1 : Nat := 0x00
def iatuRegionCtrl2 : Nat := 0x04
def iatuLowerBase : Nat := 0x08
def iatuUpperBase : Nat := 0x0C
def iatuLowerLimit : Nat := 0x10
def iatuLowerTarget : Nat := 0x14
def iatuUpperTarget : Nat := 0x18
def iatuRegionCtrl3 : Nat := 0x1C
def iatuUpperLimit : Nat := 0x20
def iatuIncreaseRegionSize : UInt32 := 0x2000
def iatuRegionEn : UInt32 := 0x80000000
def iatuMaxRegionSize : UInt64 := 0x10000000000

def nocPcieOffset : UInt64 := 0x1000000000000000
def dmaAddressLimit : UInt64 := 0x3FFFFFFFFFFFFFF

/-! ## Device data -/

/-- A memory BAR as PnP reports it. -/
structure Bar where
  phys : UInt64 := 0
  size : UInt64 := 0
  deriving DecidableEq, Repr

/-- `TTWIND_NOC_TLB_CONFIG`, less its reserved fields. -/
structure NocTlbConfig where
  addr : UInt64 := 0
  xEnd : UInt16 := 0
  yEnd : UInt16 := 0
  xStart : UInt16 := 0
  yStart : UInt16 := 0
  noc : UInt8 := 0
  mcast : UInt8 := 0
  ordering : UInt8 := 0
  linked : UInt8 := 0
  staticVc : UInt8 := 0
  deriving DecidableEq, Repr

/-- `TTWIND_ARC_MSG`: a header word and seven payload words. -/
structure ArcMsg where
  header : UInt32 := 0
  payload : Fin 7 → UInt32 := fun _ => 0

/-- A hand-built MDL: the page frames it lists. -/
structure Mdl where
  va : UInt64
  byteCount : UInt32
  pfns : List UInt64
  deriving DecidableEq, Repr

/-- How a user mapping was made, which decides how it is torn down. -/
inductive MappingKind where
  | mdl
  | sectionView
  deriving DecidableEq, Repr

/-- `TTWIND_USER_MAPPING`. `addr` is the record's own pool address. -/
structure UserMapping where
  addr : Nat
  fileObject : FileObject
  process : Process
  kind : MappingKind
  mdl : Option Mdl
  sectionBase : UInt64
  userVa : UInt64
  length : UInt64
  tlbId : Int
  deriving DecidableEq, Repr

/-- One loopback observation (`TTWIND_SYSMEM_PROBE`). -/
structure SysmemProbe where
  offset : UInt64 := 0
  wrote0 : UInt32 := 0
  read0 : UInt32 := 0
  wrote1 : UInt32 := 0
  read1 : UInt32 := 0
  deriving DecidableEq, Repr

/-- What an outbound iATU region was last programmed to. -/
structure OutboundIatu where
  base : UInt64 := 0
  limit : UInt64 := 0
  target : UInt64 := 0
  enabled : Bool := false
  deriving DecidableEq, Repr

/-- `TTWIND_ARC_ROUTE_*`. -/
inductive ArcRoute where
  | none
  | nocLow
  | nocHigh
  | axi
  deriving DecidableEq, Repr

/-- `TTWIND_SYSMEM_STAGE_*`. -/
inductive SysmemStage where
  | notRun
  | noAlloc
  | noRegs
  | tileDetect
  | iatu
  | loopback
  | verified
  deriving DecidableEq, Repr

/-- `TTWIND_SYSMEM_TIER_*`. -/
inductive TierResult where
  | notTried
  | failed
  | ok
  deriving DecidableEq, Repr

/-- `TTWIND_DEVICE_CONTEXT`. Its defaults are the context after
`TtWindMappingInitDevice`: zeroed memory, an empty mapping list, and only the
kernel window's bit set. -/
structure DeviceContext where
  vendorId : UInt16 := 0
  deviceId : UInt16 := 0
  subsystemVendorId : UInt16 := 0
  subsystemId : UInt16 := 0
  bus : UInt8 := 0
  device : UInt8 := 0
  function : UInt8 := 0
  pciDomain : UInt16 := 0
  barCount : Nat := 0
  bars : Nat → Bar := fun _ => {}
  tlbRegs : IoPtr := none
  kernelTlb : IoPtr := none
  arcApbAxi : IoPtr := none
  arcRoute : ArcRoute := .none
  bar2Iatu : IoPtr := none
  nocIdRegs : IoPtr := none
  sysmemVa : IoPtr := none
  sysmemPhys : UInt64 := 0
  sysmemSize : UInt64 := 0
  sysmemVerified : Bool := false
  pcieTileX : UInt32 := 0
  sysmemStage : SysmemStage := .notRun
  sysmemLastStatus : NtStatus := .success
  sysmemTierResult : Nat → TierResult := fun _ => .notTried
  sysmemNocIdRaw : UInt32 := 0
  sysmemProbes : Nat → SysmemProbe := fun _ => {}
  outboundIatu : Nat → OutboundIatu := fun _ => {}
  needsHwInit : Bool := false
  resetGeneration : UInt64 := 0
  savedConfig : Nat → UInt8 := fun _ => 0
  savedConfigValid : Bool := false
  busIfValid : Bool := false
  mappingList : List UserMapping := []
  tlbBitmap : Nat → Bool := fun i => i == kernelTlbIndex
  tlbOwner : Nat → Option FileObject := fun _ => none

end TtWind
