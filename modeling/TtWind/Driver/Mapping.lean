import TtWind.Driver.Ops

/-!
# User mappings (mapping.c)

Mapping device memory into a process, tearing a mapping down, and the four paths
that move records on and off the mapping list: MAP_BAR and MAP_TLB through
`createUserMapping`, UNMAP_BAR, the cleanup of a handle, and the revocation at
ReleaseHardware.
-/

set_option autoImplicit false

namespace TtWind

/-- The page frames of `pageCount` pages from a physical address: the loop that fills
the MDL's array. -/
def pfnArray (basePfn : UInt64) (pageCount : Nat) : List UInt64 :=
  (List.range pageCount).map fun i => basePfn + UInt64.ofNat i

/-- Attach to a process, unless it is the current one; answer the one to return to. -/
def attachTo (process : Process) : Drv (Option Process) := do
  let current ← op .currentProcess
  if process ≠ current then
    let saved ← op (.attach process)
    return some saved
  else return none

/-- Undo `attachTo`. -/
def detachFrom : Option Process → Drv Unit
  | none => return ()
  | some saved => op (.detach saved)

/-- `TtWindMapIoToUser`, for the record at `addr`. -/
def mapIoToUser (phys length : UInt64) (writeCombined : Bool) (process : Process) (addr : Nat) :
    Drv (Except NtStatus (Mdl × UInt64)) := do
  let allocated ← op (.allocMdl phys length.toUInt32)
  if !allocated then return .error .insufficientResources
  let basePfn := (phys.toInt64 >>> 12).toUInt64
  let pageCount := (length >>> 12).toUInt32
  let mdl : Mdl := ⟨phys, length.toUInt32, pfnArray basePfn pageCount.toNat⟩
  let saved ← attachTo process
  let userVa ← op (.mapLockedPages mdl writeCombined addr)
  detachFrom saved
  match userVa with
  | .error status => do
    op (.freeMdl mdl)
    return .error (if status.ok then .insufficientResources else status)
  | .ok va => return .ok (mdl, va)

/-- `TtWindUnmapUserView`, in the current process. -/
def unmapUserView (m : UserMapping) : Drv Unit := do
  match m.kind with
  | .sectionView =>
    let _ ← op (.unmapView m.sectionBase)
  | .mdl => op (.unmapLockedPages m.userVa m.mdl)

/-- Remove the view of a record from the process it was made in. -/
def teardownView (m : UserMapping) : Drv Unit := do
  let current ← op .currentProcess
  if m.process = current then unmapUserView m
  else
    let pending ← op (.exitPending m.process)
    if pending then
      let saved ← op (.attach m.process)
      unmapUserView m
      op (.detach saved)
    else
      -- the owner has begun to terminate, and its address space goes with it
      return ()

/-- `IoFreeMdl`, if there is one. -/
def freeMdlOf : Option Mdl → Drv Unit
  | none => return ()
  | some mdl => op (.freeMdl mdl)

/-- `TtWindDestroyMapping`. The record is already off the list. -/
def destroyMapping (m : UserMapping) : Drv Unit := do
  teardownView m
  freeMdlOf m.mdl
  op (.dereferenceProcess m.process)
  op (.freePool m.addr)

/-- The process a mapping is made in: the requestor, or else the current one. -/
def mappingProcess : Drv Process := do
  match ← op .requestorProcess with
  | some p => return p
  | none => op .currentProcess

/-- `TtWindCreateUserMapping`. -/
def createUserMapping (fileObject : Option FileObject) (phys length : UInt64) (cacheMode : UInt32)
    (tlbId : Int) : Drv (Except NtStatus UInt64) := do
  let some fo := fileObject | return .error .invalidHandle
  let writeCombined := cacheMode == 1
  let process ← mappingProcess
  let some addr ← op .allocPool | return .error .insufficientResources
  op (.referenceProcess process)
  match ← mapIoToUser phys length writeCombined process addr with
  | .error status => do
    op (.dereferenceProcess process)
    op (.freePool addr)
    return .error status
  | .ok (mdl, userVa) => do
    let mapping : UserMapping := {
      addr, fileObject := fo, process, kind := .mdl, mdl := some mdl, sectionBase := 0, userVa
      length, tlbId }
    let inserted ← locked (.insertMapping mapping)
    if !inserted then
      destroyMapping mapping
      return .error .accessDenied
    return .ok userVa

/-- The parameter checks of MAP_BAR. -/
def mapBarAccepts (c : DeviceContext) (barIndex cacheMode : UInt32) (offset length : UInt64) :
    Bool :=
  if c.barCount ≤ barIndex.toNat || maxBars ≤ barIndex.toNat then false
  else if cacheMode != 0 && cacheMode != 1 then false
  else if offset &&& (pageSize - 1) != 0 || length &&& (pageSize - 1) != 0 then false
  else if length == 0 || maxMapBytes < length then false
  else
    let barSize := (c.bars barIndex.toNat).size
    if barSize < length || barSize - length < offset then false else true

/-- `TtWindIoctlMapBar`. -/
def ioctlMapBar (fileObject : Option FileObject) : Drv (NtStatus × Nat) := do
  let status ← retrieveInputBuffer 24
  if !status.ok then return (status, 0)
  let status ← retrieveOutputBuffer 16
  if !status.ok then return (status, 0)
  let c ← load
  let barIndex ← inU32 0
  let cacheMode ← inU32 4
  let offset ← inU64 8
  let length ← inU64 16
  if !mapBarAccepts c barIndex cacheMode offset length then return (.invalidParameter, 0)
  let phys := (c.bars barIndex.toNat).phys + offset
  match ← createUserMapping fileObject phys length cacheMode (-1) with
  | .error status => return (status, 0)
  | .ok userVa => do
    outZero 16
    outU64 0 userVa
    -- a fresh read of the input field
    outU64 8 (← inU64 16)
    return (.success, 16)

/-- `TtWindIoctlUnmapBar`. -/
def ioctlUnmapBar (fileObject : Option FileObject) : Drv NtStatus := do
  let some fo := fileObject | return .invalidHandle
  let status ← retrieveInputBuffer 8
  if !status.ok then return status
  let userVa ← inU64 0
  match ← locked (.takeMapping fo userVa) with
  | none => return .notFound
  | some m => do
    destroyMapping m
    return .success

/-- Destroy a private list of records, first to last. -/
def destroyAll : List UserMapping → Drv Unit
  | [] => pure ()
  | m :: ms => do
    destroyMapping m
    destroyAll ms

/-- `TtWindEvtFileCleanup`. -/
def evtFileCleanup (fo : FileObject) : Drv Unit := do
  let toDestroy ← locked (.sweepFile fo)
  destroyAll toDestroy

/-- `TtWindRevokeAllMappings`. -/
def revokeAllMappings : Drv Unit := do
  let toDestroy ← locked .sweepAll
  destroyAll toDestroy

/-- `TtWindIoctlMapTlb` (tlb.c). -/
def ioctlMapTlb (fileObject : Option FileObject) : Drv (NtStatus × Nat) := do
  let some fo := fileObject | return (.invalidHandle, 0)
  let status ← retrieveInputBuffer 8
  if !status.ok then return (status, 0)
  let status ← retrieveOutputBuffer 8
  if !status.ok then return (status, 0)
  let cacheMode ← inU32 4
  if cacheMode ≠ 0 ∧ cacheMode ≠ 1 then return (.invalidParameter, 0)
  let tlbId ← inU32 0
  let status ← locked (.checkTlbOwner fo tlbId.toNat)
  if !status.ok then return (status, 0)
  let offset := tlbId.toUInt64 * tlb2mSize
  let c ← load
  if c.barCount = 0 ∨ (c.bars 0).size < offset + tlb2mSize then return (.deviceNotReady, 0)
  let phys := (c.bars 0).phys + offset
  match ← createUserMapping fileObject phys tlb2mSize cacheMode tlbId.toNat with
  | .error status => return (status, 0)
  | .ok userVa => do
    outZero 8
    outU64 0 userVa
    return (.success, 8)

end TtWind
