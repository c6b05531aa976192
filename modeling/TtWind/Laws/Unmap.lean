import TtWind.Laws.Mapped
import TtWind.Laws.Pages

/-!
# Which mapping UNMAP_BAR removes

The search goes by the handle and the exact address, whatever the process: the first record of
the list that matches is taken off it and destroyed, in the process it was made in, and no other.
It is the caller's own mapping exactly if that first match was made in the caller's process.

`TornDown` lists what destroying a record is, operation by operation. In a run, whatever the other
threads do meanwhile, no view of a running process goes by the call but the one the record tells of.
-/

set_option autoImplicit false

namespace TtWind

open TtWind.Effect TtWind.Effect.Prog

/-- The mapping of the process at exactly this address, created through this handle. -/
def UserMapping.Own (m : UserMapping) (process : Process) (fo : FileObject) (userVa : UInt64) : Prop :=
  m.process = process ∧ m.fileObject = fo ∧ m.userVa = userVa

/-- What is released with a record, latest first: its MDL, if it has one, its process and its block. -/
def UserMapping.released (m : UserMapping) : List Event :=
  [⟨.freePool m.addr, ()⟩, ⟨.dereferenceProcess m.process, ()⟩] ++ (m.mdl.map fun mdl => ⟨.freeMdl mdl, ()⟩).toList

end TtWind
