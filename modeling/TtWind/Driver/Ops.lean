import TtWind.Bytes
import TtWind.Driver.World

/-!
# Names for the operations

The operations under the names the driver's code uses, and the small accessors
built on them: fields of the request's buffers, and `TtWindCfgRead` and
`TtWindCfgWrite` over the bus interface.
-/

set_option autoImplicit false

namespace TtWind

def load : Drv DeviceContext := op .load

def store (f : DeviceContext → DeviceContext) : Drv Unit := op (.store f)

def acquire (l : Lock) : Drv Unit := op (.acquire l)

def release (l : Lock) : Drv Unit := op (.release l)

def locked (s : Section) : Drv s.Ans := op (.locked s)

/-- `READ_REGISTER_ULONG`. -/
def readRegister (p : IoPtr) (off : Nat) : Drv UInt32 := op (.mmioRead p off)

/-- `WRITE_REGISTER_ULONG`. -/
def writeRegister (p : IoPtr) (off : Nat) (v : UInt32) : Drv Unit := op (.mmioWrite p off v)

def retrieveInputBuffer (len : Nat) : Drv NtStatus := op (.inputBuffer len)

def retrieveOutputBuffer (len : Nat) : Drv NtStatus := op (.outputBuffer len)

/-- Fields of the input structure, by offset. -/
def inU8 (off : Nat) : Drv UInt8 := do return UInt8.ofNat (← op (.inField off 1))

def inU16 (off : Nat) : Drv UInt16 := do return UInt16.ofNat (← op (.inField off 2))

def inU32 (off : Nat) : Drv UInt32 := do return UInt32.ofNat (← op (.inField off 4))

def inU64 (off : Nat) : Drv UInt64 := do return UInt64.ofNat (← op (.inField off 8))

/-- `RtlZeroMemory` of the output structure. -/
def outZero (len : Nat) : Drv Unit := op (.outZero len)

/-- Fields of the output structure, by offset. -/
def outU8 (off : Nat) (v : UInt8) : Drv Unit := op (.outField off 1 v.toNat)

def outU16 (off : Nat) (v : UInt16) : Drv Unit := op (.outField off 2 v.toNat)

def outU32 (off : Nat) (v : UInt32) : Drv Unit := op (.outField off 4 v.toNat)

def outU64 (off : Nat) (v : UInt64) : Drv Unit := op (.outField off 8 v.toNat)

/-- `TtWindCfgRead`: the bytes transferred, and whether that is all of them. -/
def cfgRead (off len : Nat) : Drv (List UInt8 × Bool) := do
  let data ← op (.getBusData off len)
  return (data, data.length == len)

/-- `TtWindCfgWrite`. -/
def cfgWrite (off : Nat) (data : List UInt8) : Drv Bool := do
  let n ← op (.setBusData off data)
  return n == data.length

end TtWind
