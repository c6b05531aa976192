import TtWind.Driver.Types

/-!
# The StateLock sections

The mapping list and the TLB window allocator are touched only between an
acquire and a release of `StateLock`. Each such stretch of code is one section
here: a function on the device context, run as one atomic step while the lock is
free. The two stretches that also touch the device or unmap registers
(CONFIGURE_TLB and the end of ReleaseHardware) keep explicit lock operations and
are written out in their own modules.
-/

set_option autoImplicit false

namespace TtWind

namespace DeviceContext

/-- `TtWindTlbHasMappings`: some record on the list is backed by the window. -/
def tlbHasMappings (c : DeviceContext) (tlbId : Int) : Bool :=
  c.mappingList.any fun m => m.tlbId == tlbId

/-- `TtWindCheckTlbOwner`. -/
def checkTlbOwner (c : DeviceContext) (fo : FileObject) (tlbId : Nat) : NtStatus :=
  if tlb2mCount ≤ tlbId then .invalidParameter
  else if c.tlbOwner tlbId ≠ some fo then .accessDenied
  else .success

/-- `InsertTailList` on the mapping list. -/
def insertTail (c : DeviceContext) (m : UserMapping) : DeviceContext :=
  { c with mappingList := c.mappingList ++ [m] }

/-- The owner table and the bitmap as a revocation or a reset leaves them: nothing
owned, only the kernel window's bit set. -/
def reclaimTlbs (c : DeviceContext) : DeviceContext :=
  { c with
    tlbOwner := fun i => if i < tlb2mCount then none else c.tlbOwner i
    tlbBitmap := fun i => i == kernelTlbIndex }

end DeviceContext

/-- The stretches of code under StateLock. -/
inductive Section where
  /-- RESET_DEVICE: is any user mapping listed? -/
  | anyMapping
  /-- RESET_DEVICE: bump the generation, reclaim every window. -/
  | fence
  /-- `TtWindCreateUserMapping`: insert, unless a window's ownership was lost. -/
  | insertMapping (m : UserMapping)
  /-- MAP_SYSMEM: insert. -/
  | appendMapping (m : UserMapping)
  /-- UNMAP_BAR: remove the first record of this handle at this address. -/
  | takeMapping (fo : FileObject) (userVa : UInt64)
  /-- `TtWindEvtFileCleanup`: detach the handle's records, free its windows. -/
  | sweepFile (fo : FileObject)
  /-- `TtWindRevokeAllMappings`: detach every record, free every window. -/
  | sweepAll
  /-- ALLOCATE_TLB. -/
  | allocateTlb (fo : FileObject)
  /-- FREE_TLB. -/
  | freeTlb (fo : FileObject) (tlbId : Nat)
  /-- MAP_TLB: the ownership check before mapping. -/
  | checkTlbOwner (fo : FileObject) (tlbId : Nat)
  deriving DecidableEq, Repr

namespace Section

/-- What a section hands back to the code after it. -/
@[reducible] def Ans : Section → Type
  | .anyMapping => Bool
  | .fence => Unit
  | .insertMapping _ => Bool
  | .appendMapping _ => Unit
  | .takeMapping _ _ => Option UserMapping
  | .sweepFile _ => List UserMapping
  | .sweepAll => List UserMapping
  | .allocateTlb _ => Option Nat
  | .freeTlb _ _ => NtStatus
  | .checkTlbOwner _ _ => NtStatus

/-- Does the record belong to this handle at exactly this address? -/
def isMappingAt (fo : FileObject) (userVa : UInt64) (m : UserMapping) : Bool :=
  m.fileObject == fo && m.userVa == userVa

/-- `RtlFindClearBitsAndSet (bitmap, 1, 0)`: the lowest clear bit. -/
def findClearBit (bitmap : Nat → Bool) : Option Nat :=
  (List.range tlb2mCount).find? fun i => !bitmap i

/-- The code of a section. -/
def run : (s : Section) → DeviceContext → s.Ans × DeviceContext
  | .anyMapping, c => (!c.mappingList.isEmpty, c)
  | .fence, c => ((), { c.reclaimTlbs with resetGeneration := c.resetGeneration + 1 })
  | .insertMapping m, c =>
    -- the window may have been released between the ownership check and here
    if 0 ≤ m.tlbId ∧ c.tlbOwner m.tlbId.toNat ≠ some m.fileObject then (false, c)
    else (true, c.insertTail m)
  | .appendMapping m, c => ((), c.insertTail m)
  | .takeMapping fo userVa, c =>
    match c.mappingList.find? (isMappingAt fo userVa) with
    | none => (none, c)
    | some m => (some m, { c with mappingList := c.mappingList.eraseP (isMappingAt fo userVa) })
  | .sweepFile fo, c =>
    (c.mappingList.filter fun m => m.fileObject == fo,
      { c with
        mappingList := c.mappingList.filter fun m => !(m.fileObject == fo)
        tlbOwner := fun i => if i < tlb2mCount ∧ c.tlbOwner i = some fo then none else c.tlbOwner i
        tlbBitmap := fun i =>
          if i < tlb2mCount ∧ c.tlbOwner i = some fo then false else c.tlbBitmap i })
  | .sweepAll, c => (c.mappingList, { c.reclaimTlbs with mappingList := [] })
  | .allocateTlb fo, c =>
    match findClearBit c.tlbBitmap with
    | none => (none, c)
    | some id =>
      (some id, { c with
        tlbBitmap := Function.update c.tlbBitmap id true
        tlbOwner := Function.update c.tlbOwner id (some fo) })
  | .freeTlb fo tlbId, c =>
    if c.checkTlbOwner fo tlbId ≠ .success then (c.checkTlbOwner fo tlbId, c)
    else if c.tlbHasMappings tlbId then (.invalidDeviceState, c)
    else (.success, { c with
      tlbOwner := Function.update c.tlbOwner tlbId none
      tlbBitmap := Function.update c.tlbBitmap tlbId false })
  | .checkTlbOwner fo tlbId, c => (c.checkTlbOwner fo tlbId, c)

end Section

end TtWind
