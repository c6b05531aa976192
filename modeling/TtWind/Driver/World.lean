import TtWind.Effect.Prog
import TtWind.Driver.Sections

/-!
# The operations of the driver, and the world they act on

Every access the driver makes to something it shares is an operation: the
device context, the locks, BAR registers, config space, the memory manager, the
process objects, the request's buffers. `World` holds what they act on.

Two parts of the world are bookkeeping of this model and no data of the driver:
`pool` says where the mapping record at an address currently is (a thread that
builds or destroys it, or the mapping list), and `hist` is what each thread's
current call has done so far, latest first.
-/

set_option autoImplicit false

namespace TtWind

open TtWind.Effect (Sig Prog)

/-- The threads that run driver code: the sequential queue, the SelfManagedIo
callbacks, PrepareHardware and ReleaseHardware, and the callbacks of a handle. -/
inductive Tid where
  | ioctl
  | power
  | hardware
  | cleanup (fo : FileObject)
  | create (fo : FileObject)
  deriving DecidableEq, Repr

/-! ## Operations -/

inductive Op where
  /-- Read the device context. -/
  | load
  /-- Write the device context. -/
  | store (f : DeviceContext → DeviceContext)
  | acquire (l : Lock)
  | release (l : Lock)
  | locked (s : Section)
  /-- The handle's `TTWIND_FILE_CONTEXT.ResetGeneration`. -/
  | fileGen (fo : FileObject)
  | setFileGen (fo : FileObject) (g : UInt64)
  /-- `READ_REGISTER_ULONG` at a mapping's base plus an offset. -/
  | mmioRead (p : IoPtr) (off : Nat)
  | mmioWrite (p : IoPtr) (off : Nat) (v : UInt32)
  | getBusData (off len : Nat)
  | setBusData (off : Nat) (data : List UInt8)
  /-- Read the clock for a deadline: how many polls fit before it. -/
  | deadline (ms : Nat)
  | stall (us : Nat)
  | mapIoSpace (phys : UInt64) (len : Nat)
  | unmapIoSpace (p : IoPtr) (len : Nat)
  | numaNode
  | allocContiguous (size highest : UInt64) (node : Option UInt32)
  | freeContiguous (va : IoPtr) (size : UInt64)
  | physicalAddress (va : IoPtr)
  /-- Store a dword in the sysmem buffer through its kernel address. -/
  | bufferWrite (off : Nat) (v : UInt32)
  | bufferZero (len : UInt64)
  | memoryBarrier
  | allocPool
  | freePool (addr : Nat)
  | referenceProcess (p : Process)
  | dereferenceProcess (p : Process)
  | allocMdl (va : UInt64) (len : UInt32)
  | freeMdl (m : Mdl)
  /-- `MmMapLockedPagesSpecifyCache` in the current process, for a record. -/
  | mapLockedPages (m : Mdl) (writeCombined : Bool) (addr : Nat)
  | unmapLockedPages (va : UInt64) (m : Option Mdl)
  | openSection
  | closeSection
  /-- `ZwMapViewOfSection` of physical memory in the current process, for a record. -/
  | mapView (offset size : UInt64) (addr : Nat)
  | unmapView (base : UInt64)
  | currentProcess
  | requestorProcess
  /-- `PsGetProcessExitStatus` is STATUS_PENDING. -/
  | exitPending (p : Process)
  /-- `KeStackAttachProcess`; the process attached from is the answer. -/
  | attach (p : Process)
  | detach (saved : Process)
  | inputBuffer (len : Nat)
  | outputBuffer (len : Nat)
  /-- Read a little-endian field of the input buffer. -/
  | inField (off len : Nat)
  | outZero (len : Nat)
  | outField (off len : Nat) (v : Nat)
  | queryInterface
  | dereferenceInterface
  | queryProperty
  | complete (s : NtStatus) (info : Nat)

namespace Op

/-- The answer of each operation. -/
@[reducible] def Ans : Op → Type
  | .load => DeviceContext
  | .locked s => s.Ans
  | .fileGen _ => UInt64
  | .mmioRead _ _ => UInt32
  | .getBusData _ _ => List UInt8
  | .setBusData _ _ => Nat
  | .deadline _ => Nat
  | .mapIoSpace _ _ => IoPtr
  | .numaNode => Option UInt32
  | .allocContiguous _ _ _ => IoPtr
  | .physicalAddress _ => UInt64
  | .allocPool => Option Nat
  | .allocMdl _ _ => Bool
  | .mapLockedPages _ _ _ => Except NtStatus UInt64
  | .openSection => NtStatus
  | .mapView _ _ _ => Except NtStatus UInt64
  | .unmapView _ => NtStatus
  | .currentProcess => Process
  | .requestorProcess => Option Process
  | .exitPending _ => Bool
  | .attach _ => Process
  | .inputBuffer _ => NtStatus
  | .outputBuffer _ => NtStatus
  | .inField _ _ => Nat
  | .queryInterface => NtStatus
  | .queryProperty => Except NtStatus UInt32
  | _ => Unit

end Op

/-- The driver's signature. -/
abbrev DriverSig : Sig := ⟨Op, Op.Ans⟩

/-- A program of the driver. -/
abbrev Drv (α : Type) := Prog DriverSig α

/-- Perform one operation. -/
abbrev op (o : Op) : Drv o.Ans := Prog.perform (S := DriverSig) o

/-- What one operation did: the operation and its answer. -/
abbrev Event := (o : Op) × o.Ans

/-! ## The world -/

/-- A live `MmMapIoSpaceEx` mapping. -/
structure IoMap where
  base : Nat
  phys : UInt64
  len : Nat
  deriving DecidableEq, Repr

/-- A live contiguous allocation. -/
structure Contiguous where
  va : Nat
  phys : UInt64
  size : UInt64
  deriving DecidableEq, Repr

/-- The physical memory a view shows: listed pages, or a range. -/
inductive Span where
  | pages (pfns : List UInt64)
  | range (phys size : UInt64)
  deriving DecidableEq, Repr

/-- A user view in a process's address space; `addr` is the pool address of the
mapping record it was made for. -/
structure View where
  addr : Nat
  process : Process
  va : UInt64
  span : Span
  deriving DecidableEq, Repr

/-- A view of device memory (an MDL mapping of a BAR range or a TLB window). -/
def View.isDevice (v : View) : Bool :=
  match v.span with
  | .pages _ => true
  | .range _ _ => false

/-- Where a mapping record is. -/
inductive Place where
  | building (t : Tid)
  | listed
  | detached (t : Tid)
  deriving DecidableEq, Repr

/-- A process runs, has begun to terminate, or its address space is gone. -/
inductive ProcPhase where
  | running
  | exiting
  | gone
  deriving DecidableEq, Repr

/-- The life of a handle. -/
inductive FilePhase where
  | closed
  | opening
  | isOpen
  | closing
  deriving DecidableEq, Repr

/-- The request the queue has dispatched. With METHOD_BUFFERED input and output
are one buffer (`aliased`); `aliased := false` is the reading with two. -/
structure Request where
  fileObject : Option FileObject := none
  requestor : Option Process := none
  inLen : Nat := 0
  outLen : Nat := 0
  aliased : Bool := true
  inBuf : Nat → UInt8 := fun _ => 0
  outBuf : Nat → UInt8 := fun _ => 0

/-- The shared world. `started` is set from the beginning of a PrepareHardware to that
of the next ReleaseHardware. -/
structure World where
  ctx : DeviceContext := {}
  arcLock : Option Tid := none
  stateLock : Option Tid := none
  fileGen : FileObject → UInt64 := fun _ => 0
  files : FileObject → FilePhase := fun _ => .closed
  procs : Process → ProcPhase := fun _ => .running
  curProc : Tid → Process := fun _ => 0
  procRefs : Process → Int := fun _ => 0
  ioMaps : List IoMap := []
  contiguous : List Contiguous := []
  buffer : Nat → UInt8 := fun _ => 0
  views : List View := []
  busRefs : Int := 0
  started : Bool := false
  req : Request := {}
  pool : Nat → Option Place := fun _ => none
  hist : Tid → List Event := fun _ => []

end TtWind
