import TtWind.Driver.Exec
import TtWind.Driver.Queue

/-!
# The driver as a system of threads

Which callback may begin when, what its end changes, and what happens without
the driver. The queue dispatches one request at a time and none while the
hardware callbacks run; PnP runs one of its callbacks at a time, and prepares again
only after a release; the callbacks of a handle run whenever the handle's life allows. A handle's cleanup may begin
while a request of the same handle executes, but the file object is not reused
before that request is done.
-/

set_option autoImplicit false

namespace TtWind

open TtWind.Effect (System Config)

namespace World

/-- A thread's call begins in a process, with nothing done yet. -/
def enter (w : World) (t : Tid) (p : Process) : World :=
  { w with
    curProc := Function.update w.curProc t p
    hist := Function.update w.hist t [] }

def setFile (w : World) (fo : FileObject) (ph : FilePhase) : World :=
  { w with files := Function.update w.files fo ph }

end World

/-- The programs of the PnP power thread. -/
inductive PowerCallback where
  | init
  | restart
  | suspend
  deriving DecidableEq, Repr

def PowerCallback.code : PowerCallback → Drv Unit
  | .init => evtDeviceSelfManagedIoInit
  | .restart => evtDeviceSelfManagedIoRestart
  | .suspend => evtDeviceSelfManagedIoSuspend

/-- Which call may begin, given the live threads. -/
inductive Begins (live : Tid → Prop) : Tid → Drv Unit → World → World → Prop where
  | ioctl {w : World} (r : Request) (code : Ioctl) (p : Process) :
      ¬ live .hardware → r.aliased = true →
      (∀ fo, r.fileObject = some fo → w.files fo = .isOpen) →
      Begins live .ioctl (evtIoDeviceControl r.fileObject code) w
        { w.enter .ioctl p with req := r }
  | power {w : World} (cb : PowerCallback) (p : Process) :
      ¬ live .hardware → Begins live .power cb.code w (w.enter .power p)
  | prepare {w : World} (resources : List ResourceDesc) (p : Process) :
      ¬ live .power → ¬ live .ioctl → w.started = false →
      Begins live .hardware (do let _ ← evtDevicePrepareHardware resources) w
        { w.enter .hardware p with started := true }
  | release {w : World} (p : Process) :
      ¬ live .power → ¬ live .ioctl →
      Begins live .hardware evtDeviceReleaseHardware w
        { w.enter .hardware p with started := false }
  | create {w : World} (fo : FileObject) (p : Process) :
      w.files fo = .closed → ¬ (live .ioctl ∧ w.req.fileObject = some fo) →
      Begins live (.create fo) (evtDeviceFileCreate fo) w
        ((w.enter (.create fo) p).setFile fo .opening)
  | cleanup {w : World} (fo : FileObject) (p : Process) :
      w.files fo = .isOpen →
      Begins live (.cleanup fo) (evtFileCleanup fo) w
        ((w.enter (.cleanup fo) p).setFile fo .closing)

/-- What the end of a call changes: the phase of a handle. -/
def World.leave (w : World) : Tid → World
  | .create fo => w.setFile fo .isOpen
  | .cleanup fo => w.setFile fo .closed
  | _ => w

/-- What happens without the driver: processes terminate, and user code and the
device write the sysmem buffer. -/
inductive Environment : World → World → Prop where
  | exits {w : World} (p : Process) : w.procs p = .running →
      Environment w { w with procs := Function.update w.procs p .exiting }
  | gone {w : World} (p : Process) : w.procs p = .exiting →
      Environment w { w with
        procs := Function.update w.procs p .gone
        views := w.views.filter fun v => !(v.process == p) }
  | buffer {w : World} (b : Nat → UInt8) : Environment w { w with buffer := b }

/-- The world when the device object has been created. -/
def World.Initial (w : World) : Prop := ∃ buffer, w = { buffer }

/-- The driver. -/
def driver : System DriverSig Tid Choice World where
  toMachine := driverMachine
  initial := World.Initial
  begins := Begins
  ends t w w' := w' = w.leave t
  env := Environment

@[simp] theorem driver_exec : driver.exec = World.exec := rfl

@[simp] theorem driver_toMachine : driver.toMachine = driverMachine := rfl

@[simp] theorem driverMachine_exec : driverMachine.exec = World.exec := rfl

end TtWind
