import Mathlib.Logic.Function.Basic
import TtWind.Bytes
import TtWind.Effect.Threads
import TtWind.Driver.World

/-!
# What each operation does

`World.step` runs one operation of a thread. What the device, the bus and the OS
decide is the `Choice`; a choice they cannot make (a short config read longer
than asked, a mapping at an address in use) disables the step, and so does a
lock that is held. `World.exec` also records the event in the thread's history.
-/

set_option autoImplicit false

namespace TtWind

open TtWind.Effect (Machine)

/-- What the environment decides at one operation. -/
inductive Choice where
  | unit
  | word (v : UInt32)
  | count (n : Nat)
  | bytes (l : List UInt8)
  | address (a : Nat)
  | region (va : Nat) (phys : UInt64)
  | fail (s : NtStatus)
  deriving DecidableEq, Repr

/-- Where the records a section moved are afterwards. -/
def Section.places (t : Tid) : (s : Section) → s.Ans → (Nat → Option Place) → Nat → Option Place
  | .insertMapping m, inserted, pool =>
    if inserted then Function.update pool m.addr (some .listed) else pool
  | .appendMapping m, _, pool => Function.update pool m.addr (some .listed)
  | .takeMapping _ _, found, pool =>
    match found with
    | none => pool
    | some m => Function.update pool m.addr (some (.detached t))
  | .sweepFile _, ms, pool => fun a => if ms.any (·.addr == a) then some (.detached t) else pool a
  | .sweepAll, ms, pool => fun a => if ms.any (·.addr == a) then some (.detached t) else pool a
  | _, _, pool => pool

namespace Request

/-- Bytes written to the output buffer; with METHOD_BUFFERED it is the input buffer. -/
def write (r : Request) (f : (Nat → UInt8) → Nat → UInt8) : Request :=
  if r.aliased then { r with inBuf := f r.inBuf } else { r with outBuf := f r.outBuf }

/-- The bytes the output buffer holds. -/
def output (r : Request) : Nat → UInt8 := if r.aliased then r.inBuf else r.outBuf

end Request

namespace World

/-- The lock's holder. -/
def holder (w : World) : Lock → Option Tid
  | .arc => w.arcLock
  | .state => w.stateLock

def setHolder (w : World) (l : Lock) (t : Option Tid) : World :=
  match l with
  | .arc => { w with arcLock := t }
  | .state => { w with stateLock := t }

/-- No view of the process starts at this address. -/
def vaFree (w : World) (p : Process) (va : UInt64) : Bool :=
  w.views.all fun v => !(v.process == p && v.va == va)

/-- Add a view in the thread's current process at the address the OS picked. -/
def addView (w : World) (t : Tid) (addr : Nat) (span : Span) :
    Choice → Option (Except NtStatus UInt64 × World)
  | .address a =>
    let va := UInt64.ofNat a
    if w.vaFree (w.curProc t) va ∧ w.procs (w.curProc t) ≠ .gone then
      some (.ok va, { w with views := ⟨addr, w.curProc t, va, span⟩ :: w.views })
    else none
  | .fail s => some (.error s, w)
  | _ => none

/-- Remove the thread's current process's view of this kind at this address. -/
def removeView (w : World) (t : Tid) (va : UInt64) (device : Bool) : World :=
  { w with views := w.views.filter fun v =>
      !(v.process == w.curProc t && v.va == va && v.isDevice == device) }

/-- One operation of a thread. -/
def step (t : Tid) : (o : Op) → Choice → World → Option (o.Ans × World)
  | .load, _, w => some (w.ctx, w)
  | .store f, _, w => some ((), { w with ctx := f w.ctx })
  | .acquire l, _, w => if w.holder l = none then some ((), w.setHolder l (some t)) else none
  | .release l, _, w => if w.holder l = some t then some ((), w.setHolder l none) else none
  | .locked s, _, w =>
    if w.stateLock = none then
      let r := s.run w.ctx
      some (r.1, { w with ctx := r.2, pool := s.places t r.1 w.pool })
    else none
  | .fileGen fo, _, w => some (w.fileGen fo, w)
  | .setFileGen fo g, _, w => some ((), { w with fileGen := Function.update w.fileGen fo g })
  | .mmioRead _ _, .word v, w => some (v, w)
  | .mmioRead _ _, _, _ => none
  | .mmioWrite _ _ _, _, w => some ((), w)
  | .getBusData _ len, .bytes l, w => if l.length ≤ len then some (l, w) else none
  | .getBusData _ _, _, _ => none
  | .setBusData _ data, .count n, w => if n ≤ data.length then some (n, w) else none
  | .setBusData _ _, _, _ => none
  | .deadline _, .count n, w => some (n, w)
  | .deadline _, _, _ => none
  | .stall _, _, w => some ((), w)
  | .mapIoSpace phys len, .address a, w =>
    if w.ioMaps.all (fun m => !(m.base == a)) then
      some (some a, { w with ioMaps := ⟨a, phys, len⟩ :: w.ioMaps })
    else none
  | .mapIoSpace _ _, .fail _, w => some (none, w)
  | .mapIoSpace _ _, _, _ => none
  | .unmapIoSpace p _, _, w =>
    some ((), { w with ioMaps := w.ioMaps.filter fun m => !(some m.base == p) })
  | .numaNode, .word v, w => some (some v, w)
  | .numaNode, _, w => some (none, w)
  | .allocContiguous size highest _, .region va phys, w =>
    -- page aligned, within the limit, at an address not in use
    if phys.toNat % 4096 = 0 ∧ phys.toNat + size.toNat ≤ highest.toNat + 1 ∧
        w.contiguous.all (fun m => !(m.va == va)) then
      some (some va, { w with contiguous := ⟨va, phys, size⟩ :: w.contiguous })
    else none
  | .allocContiguous _ _ _, .fail _, w => some (none, w)
  | .allocContiguous _ _ _, _, _ => none
  | .freeContiguous va _, _, w =>
    some ((), { w with contiguous := w.contiguous.filter fun m => !(some m.va == va) })
  | .physicalAddress va, _, w =>
    some (((w.contiguous.find? fun m => some m.va == va).map Contiguous.phys).getD 0, w)
  | .bufferWrite off v, _, w => some ((), { w with buffer := leStore w.buffer off 4 v.toNat })
  | .bufferZero len, _, w =>
    some ((), { w with buffer := fun i => if i < len.toNat then 0 else w.buffer i })
  | .memoryBarrier, _, w => some ((), w)
  | .allocPool, .address a, w =>
    if w.pool a = none then
      some (some a, { w with pool := Function.update w.pool a (some (.building t)) })
    else none
  | .allocPool, .fail _, w => some (none, w)
  | .allocPool, _, _ => none
  | .freePool addr, _, w => some ((), { w with pool := Function.update w.pool addr none })
  | .referenceProcess p, _, w =>
    some ((), { w with procRefs := Function.update w.procRefs p (w.procRefs p + 1) })
  | .dereferenceProcess p, _, w =>
    some ((), { w with procRefs := Function.update w.procRefs p (w.procRefs p - 1) })
  | .allocMdl _ _, .unit, w => some (true, w)
  | .allocMdl _ _, .fail _, w => some (false, w)
  | .allocMdl _ _, _, _ => none
  | .freeMdl _, _, w => some ((), w)
  | .mapLockedPages m _ addr, e, w => w.addView t addr (.pages m.pfns) e
  | .unmapLockedPages va _, _, w => some ((), w.removeView t va true)
  | .openSection, .unit, w => some (.success, w)
  | .openSection, .fail s, w => if s.ok then none else some (s, w)
  | .openSection, _, _ => none
  | .closeSection, _, w => some ((), w)
  | .mapView offset size addr, .address a, w => w.addView t addr (.range offset size) (.address a)
  | .mapView _ _ _, .fail s, w => if s.ok then none else some (.error s, w)
  | .mapView _ _ _, _, _ => none
  | .unmapView base, _, w =>
    if w.views.any fun v => v.process == w.curProc t && v.va == base && !v.isDevice then
      some (.success, w.removeView t base false)
    else some (.other 0xC0000019, w)
  | .currentProcess, _, w => some (w.curProc t, w)
  | .requestorProcess, _, w => some (w.req.requestor, w)
  | .exitPending p, _, w => some (w.procs p == .running, w)
  | .attach p, _, w => some (w.curProc t, { w with curProc := Function.update w.curProc t p })
  | .detach saved, _, w => some ((), { w with curProc := Function.update w.curProc t saved })
  | .inputBuffer len, _, w => some (if w.req.inLen < len then .bufferTooSmall else .success, w)
  | .outputBuffer len, _, w => some (if w.req.outLen < len then .bufferTooSmall else .success, w)
  | .inField off len, _, w => some (leNat w.req.inBuf off len, w)
  | .outZero len, _, w =>
    some ((), { w with req := w.req.write fun b i => if i < len then 0 else b i })
  | .outField off len v, _, w =>
    some ((), { w with req := w.req.write fun b => leStore b off len v })
  | .queryInterface, .unit, w => some (.success, { w with busRefs := w.busRefs + 1 })
  | .queryInterface, .fail s, w => if s.ok then none else some (s, w)
  | .queryInterface, _, _ => none
  | .dereferenceInterface, _, w => some ((), { w with busRefs := w.busRefs - 1 })
  | .queryProperty, .word v, w => some (.ok v, w)
  | .queryProperty, .fail s, w => if s.ok then none else some (.error s, w)
  | .queryProperty, _, _ => none
  | .complete _ _, _, w => some ((), w)

/-- Put an event at the head of a thread's history. -/
def record (w : World) (t : Tid) (ev : Event) : World :=
  { w with hist := Function.update w.hist t (ev :: w.hist t) }

/-- One operation of a thread, recorded. -/
def exec (t : Tid) (o : Op) (e : Choice) (w : World) : Option (o.Ans × World) :=
  (w.step t o e).map fun r => (r.1, r.2.record t ⟨o, r.1⟩)

end World

/-- The driver's machine. -/
def driverMachine : Machine DriverSig Tid Choice World := ⟨World.exec⟩

end TtWind
