import TtWind.Driver.World
import TtWind.Links

/-!
# The mapping list in memory (mapping.c)

The mapping records as they lie in memory: each is a node of a circular list through its
`ListEntry`, with the heads in the device context and on the stacks of the threads that destroy
records. `ListMemory.note` is what each operation of the driver does there, as the code does it
link by link; it fails where a walk would not come back to its head, where it would find another
record than the section answered, and where a block would be freed that the thread does not have.
-/

set_option autoImplicit false

namespace TtWind

/-- The nodes: `MappingList`, the private list `toDestroy` of a thread, and the `ListEntry` of the
record at an address. -/
inductive ListNode where
  | mappingList
  | toDestroy (t : Tid)
  | entry (addr : Nat)
  deriving DecidableEq, Repr

/-- `CONTAINING_RECORD`: the record a node is the entry of. -/
def ListNode.record : ListNode → Option Nat
  | .entry addr => some addr
  | _ => none

/-- The node of a record. -/
def UserMapping.entry (m : UserMapping) : ListNode := .entry m.addr

/-- The links, the records as last written, how many were ever inserted, and the record each thread
has taken from a list or has allocated. At first every head is as `InitializeListHead` leaves it. -/
structure ListMemory where
  links : Links ListNode := ⟨id, id⟩
  record : Nat → Option UserMapping := fun _ => none
  inserted : Nat := 0
  held : Tid → Option Nat := fun _ => none

namespace ListMemory

/-- A test of the record a node is the entry of. -/
def test (mem : ListMemory) (f : UserMapping → Bool) (x : ListNode) : Bool :=
  (x.record.bind mem.record).any f

/-- No list has more entries than were ever inserted. -/
def rounds (mem : ListMemory) : Nat := mem.inserted + 1

def hold (mem : ListMemory) (t : Tid) (addr : Option Nat) : ListMemory :=
  { mem with held := Function.update mem.held t addr }

/-- The record's fields are written, and `InsertTailList` puts it on the mapping list. -/
def insert (mem : ListMemory) (t : Tid) (m : UserMapping) : ListMemory :=
  { mem with
    links := mem.links.insertTailList .mappingList m.entry
    record := Function.update mem.record m.addr (some m)
    inserted := mem.inserted + 1
    held := Function.update mem.held t none }

/-- UNMAP_BAR: search the mapping list, and remove the entry found. -/
def take (mem : ListMemory) (t : Tid) (fo : FileObject) (userVa : UInt64) (found : Option UserMapping) :
    Option ListMemory :=
  match mem.links.searchFrom .mappingList (mem.test (Section.isMappingAt fo userVa)) mem.rounds
      (mem.links.flink .mappingList) with
  | none => none
  | some entry =>
    if entry = found.map UserMapping.entry then
      match entry with
      | none => some mem
      | some x => some ({ mem with links := mem.links.removeEntryList x }.hold t x.record)
    else none

/-- The cleanup of a handle: its records move to the private list one by one. -/
def sweepFile (mem : ListMemory) (t : Tid) (fo : FileObject) : Option ListMemory :=
  let l := mem.links.initializeListHead (.toDestroy t)
  (l.moveFrom .mappingList (.toDestroy t) (mem.test (·.fileObject == fo)) mem.rounds
    (l.flink .mappingList)).map fun l => { mem with links := l }

/-- The revocation: the whole list moves in one splice, unless it is empty. -/
def sweepAll (mem : ListMemory) (t : Tid) : ListMemory :=
  let l := mem.links.initializeListHead (.toDestroy t)
  { mem with links := if l.isListEmpty .mappingList then l else l.splice .mappingList (.toDestroy t) }

/-- The head of the loop that destroys a private list: its first entry is removed, if it has one. -/
def removeNext (mem : ListMemory) (t : Tid) : ListMemory :=
  if mem.links.isListEmpty (.toDestroy t) then mem
  else
    let (x, l) := mem.links.removeHeadList (.toDestroy t)
    { mem with links := l }.hold t x.record

/-- `ExFreePoolWithTag`, of a block the thread has. -/
def free (mem : ListMemory) (t : Tid) (addr : Nat) : Option ListMemory :=
  if mem.held t = some addr then some (mem.hold t none) else none

/-- What a section does to the lists, given what it answered. -/
def runSection (mem : ListMemory) (t : Tid) : (s : Section) → s.Ans → Option ListMemory
  | .insertMapping m, inserted => some (if inserted then mem.insert t m else mem)
  | .appendMapping m, _ => some (mem.insert t m)
  | .takeMapping fo userVa, found => mem.take t fo userVa found
  | .sweepFile fo, _ => mem.sweepFile t fo
  | .sweepAll, _ => some (mem.sweepAll t)
  | _, _ => some mem

/-- What an operation of a thread does to the lists. A thread that destroys its private list takes
the next record off it right before `TtWindDestroyMapping` asks for the current process. -/
def note (mem : ListMemory) (t : Tid) : (o : Op) → o.Ans → Option ListMemory
  | .allocPool, some addr => some (mem.hold t (some addr))
  | .locked s, x => mem.runSection t s x
  | .currentProcess, _ => some (mem.removeNext t)
  | .freePool addr, _ => mem.free t addr
  | _, _ => some mem

end ListMemory

end TtWind
