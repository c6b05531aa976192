import TtWind.Driver.System
import TtWind.Effect.Observe

/-!
# Playing a schedule

An executable form of the system: a schedule is a list of moves, each the
beginning or end of a call, a batch of operations of one thread with the
environment's choices for them, or a process terminating. `play` carries a
schedule out, and `run_of_play` says that what it reaches is reached by a run,
all of whose operations pass the test `ok`. A watched schedule is one of the driver with
an observer, whose drifts are moves too.
-/

set_option autoImplicit false

namespace TtWind

open TtWind.Effect

/-- One move of a schedule. -/
inductive Move where
  | ioctl (r : Request) (code : Ioctl) (p : Process)
  | power (cb : PowerCallback) (p : Process)
  | prepare (resources : List ResourceDesc) (p : Process)
  | release (p : Process)
  | create (fo : FileObject) (p : Process)
  | cleanup (fo : FileObject) (p : Process)
  | ops (t : Tid) (choices : List Choice)
  | ends (t : Tid)
  | exits (p : Process)
  | gone (p : Process)

/-- A configuration of the driver. -/
abbrev DriverConfig := Config DriverSig Tid World

/-- Nothing has happened yet. -/
def idle : DriverConfig := ⟨{}, fun _ => none⟩

namespace DriverConfig

variable (ok : Tid → Op → World → Bool)

/-- Perform a thread's next operations, one for each choice. -/
def ops (t : Tid) : List Choice → DriverConfig → Option DriverConfig
  | [], c => some c
  | e :: es, c =>
    match c.pool t with
    | some (.vis o k) =>
      if ok t o c.world then
        match c.world.exec t o e with
        | some (x, w) => ops t es (c.set w t (some (k x)))
        | none => none
      else none
    | _ => none

/-- Begin a call of a thread that has none, if the rest of the rule's condition holds. -/
def start (c : DriverConfig) (t : Tid) (p : Drv Unit) (w : World) (cond : Bool) :
    Option DriverConfig :=
  if (c.pool t).isNone && cond then some (c.set w t (some p)) else none

/-- One move, if it is possible. -/
def move (c : DriverConfig) : Move → Option DriverConfig
  | .ioctl r code p =>
    start c .ioctl (evtIoDeviceControl r.fileObject code) { c.world.enter .ioctl p with req := r }
      ((c.pool .hardware).isNone && r.aliased &&
        r.fileObject.all fun fo => c.world.files fo == .isOpen)
  | .power cb p =>
    start c .power cb.code (c.world.enter .power p) (c.pool .hardware).isNone
  | .prepare resources p =>
    start c .hardware (do let _ ← evtDevicePrepareHardware resources)
      { c.world.enter .hardware p with started := true }
      ((c.pool .power).isNone && (c.pool .ioctl).isNone && !c.world.started)
  | .release p =>
    start c .hardware evtDeviceReleaseHardware { c.world.enter .hardware p with started := false }
      ((c.pool .power).isNone && (c.pool .ioctl).isNone)
  | .create fo p =>
    start c (.create fo) (evtDeviceFileCreate fo)
      ((c.world.enter (.create fo) p).setFile fo .opening)
      (c.world.files fo == .closed && (c.pool .ioctl).isNone)
  | .cleanup fo p =>
    start c (.cleanup fo) (evtFileCleanup fo)
      ((c.world.enter (.cleanup fo) p).setFile fo .closing) (c.world.files fo == .isOpen)
  | .ops t choices => ops ok t choices c
  | .ends t =>
    match c.pool t with
    | some (.pure ()) => some (c.set (c.world.leave t) t none)
    | _ => none
  | .exits p =>
    if c.world.procs p == .running then
      some ⟨{ c.world with procs := Function.update c.world.procs p .exiting }, c.pool⟩
    else none
  | .gone p =>
    if c.world.procs p == .exiting then
      some ⟨{ c.world with
        procs := Function.update c.world.procs p .gone
        views := c.world.views.filter fun v => !(v.process == p) }, c.pool⟩
    else none

/-- A schedule, move by move. -/
def play : List Move → DriverConfig → Option DriverConfig
  | [], c => some c
  | m :: ms, c => (c.move ok m).bind (play ms)

end DriverConfig

/-! ## Watched schedules -/

/-- A configuration of the watched driver. -/
abbrev WatchedConfig (G : Type) := Config DriverSig Tid (World × G)

/-- One move of a watched schedule. -/
inductive WatchedMove where
  | driver (m : Move)
  | drift (n : Nat)

namespace WatchedConfig

variable {G : Type} (O : Observer DriverSig Tid World G) (ok : Tid → Op → World × G → Bool)

/-- Perform a thread's next operations, one for each choice. -/
def ops (t : Tid) : List Choice → WatchedConfig G → Option (WatchedConfig G)
  | [], c => some c
  | e :: es, c =>
    match c.pool t with
    | some (.vis o k) =>
      if ok t o c.world then
        match (driverMachine.observe O).exec t o e c.world with
        | some (x, w) => ops t es (c.set w t (some (k x)))
        | none => none
      else none
    | _ => none

/-- One move, if it is possible. -/
def move (c : WatchedConfig G) : WatchedMove → Option (WatchedConfig G)
  | .driver (.ops t choices) => ops O ok t choices c
  | .driver m => (DriverConfig.move (fun _ _ _ => false) c.forget m).map fun c' => c'.watched c.world.2
  | .drift n => (O.drift n c.world.2).map fun g => ⟨(c.world.1, g), c.pool⟩

/-- A watched schedule, move by move. -/
def play : List WatchedMove → WatchedConfig G → Option (WatchedConfig G)
  | [], c => some c
  | m :: ms, c => (c.move O ok m).bind (play ms)

end WatchedConfig

/-! ## Usual beginnings -/

/-- `n` operations that leave the environment no choice. -/
def plainOps (n : Nat) : List Choice := List.replicate n .unit

/-- The config header of a card: vendor 0x1E52, device 0xB140. -/
def cardHeader : List UInt8 := [0x52, 0x1E, 0x40, 0xB1] ++ List.replicate 60 0

/-- A card arrives with a 512 MiB BAR 0 and a 1 MiB BAR 2; everything is mapped, and a
1 GiB buffer is allocated at the given physical address. -/
def cardArrives (sysmemPhys : UInt64) : List Move :=
  [.prepare [⟨.memory, 0, 0x4000000000, 0x20000000⟩, ⟨.memory, 0, 0x5000000000, 0x100000⟩] 0,
    .ops .hardware (plainOps 3 ++ [.bytes cardHeader] ++ plainOps 2 ++ [.word 1, .word 0] ++
      plainOps 7 ++ [.address 1, .unit, .address 2, .unit, .address 3, .unit, .address 4, .unit,
        .address 5, .unit, .unit, .region 6 sysmemPhys] ++ plainOps 6),
    .ends .hardware]

/-- A handle is opened in a process. -/
def opens (fo : FileObject) (p : Process) : List Move :=
  [.create fo p, .ops (.create fo) (plainOps 3), .ends (.create fo)]

/-- RESET_DEVICE by handle 2, up to the trigger. -/
def armsReset : List Move :=
  [.ioctl { fileObject := some 2, requestor := some 2, inLen := 8 } .resetDevice 2,
    .ops .ioctl (plainOps 9 ++ [.bytes [0x52, 0x1E]] ++ plainOps 2 ++
      [.bytes (List.replicate 256 0)] ++ plainOps 2 ++ [.bytes [0, 0], .count 2] ++ plainOps 5 ++
      [.count 4])]

/-- POST_RESET by handle 2, up to where it gives up ArcLock: the card is back, its config is
restored, and the window's registers read as they were written. -/
def recoversReset : List Move :=
  [.ends .ioctl, .ioctl { fileObject := some 2, requestor := some 2, inLen := 8 } .postReset 2,
    .ops .ioctl (plainOps 10 ++ [.bytes [0x52, 0x1E], .unit, .bytes [0, 0], .unit] ++
      List.replicate 64 (.count 4) ++ [.bytes (List.replicate 256 0)] ++ plainOps 6 ++
      [.word 0, .word 0x4000, .word 0x40] ++ plainOps 2)]

/-- An exchange with the firmware in which no route answers. -/
def deafExchange : List Choice :=
  plainOps 2 ++ [.count 0] ++ plainOps 6 ++ [.word 0xFFFFFFFF] ++ plainOps 6 ++ [.word 0xFFFFFFFF] ++
    plainOps 2 ++ [.word 0xFFFFFFFF] ++ plainOps 1

/-- ALLOCATE_TLB by handle 1 of a 2 MiB window. -/
def allocateRequest : Request :=
  { fileObject := some 1, inLen := 8, outLen := 8, inBuf := fun i => if i = 2 then 0x20 else 0 }

end TtWind
