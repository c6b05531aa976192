import TtWind.Driver.System
import TtWind.Effect.Observe

/-!
# What one operation changes

The single case analysis over `World.step`: for each component of the world,
which operations can change it, and to what. Everything later about a step of
the driver is derived from `Frame`.

The frame says what stays. What an operation makes of the component it may change is left to the
modules that need it, apart from the context (`Op.effect`) and the history. At the end is what the
beginning of a call, its end and the environment leave.
-/

set_option autoImplicit false

namespace TtWind

open TtWind.Effect (Prog Solo)

namespace Op

/-- The device context after the operation. -/
def effect : Op → DeviceContext → DeviceContext
  | store f, c => f c
  | locked s, c => (s.run c).2
  | _, c => c

/-- The operations on the lock. -/
def movesLock (l : Lock) : Op → Prop
  | acquire l' | release l' => l' = l
  | _ => False

/-- The operations on kernel mappings of registers. -/
def movesIo : Op → Prop
  | mapIoSpace _ _ | unmapIoSpace _ _ => True
  | _ => False

/-- The operations on user mappings. -/
def movesViews : Op → Prop
  | mapLockedPages _ _ _ | unmapLockedPages _ _ | mapView _ _ _ | unmapView _ => True
  | _ => False

/-- The operations on pool blocks. Sections move records on and off the list, and count here. -/
def movesPool : Op → Prop
  | allocPool | freePool _ | locked _ => True
  | _ => False

/-- The operations that change the current process. -/
def movesProcess : Op → Prop
  | attach _ | detach _ => True
  | _ => False

/-- The operations on the bytes of the sysmem buffer. -/
def writesBuffer : Op → Prop
  | bufferWrite _ _ | bufferZero _ => True
  | _ => False

/-- The operations on contiguous memory. -/
def movesContiguous : Op → Prop
  | allocContiguous _ _ _ | freeContiguous _ _ => True
  | _ => False

/-- The operations that write the request's output. -/
def writesRequest : Op → Prop
  | outZero _ | outField _ _ _ => True
  | _ => False

/-- The operation on a handle's generation. -/
def stampsFile : Op → Prop
  | setFileGen _ _ => True
  | _ => False

/-- The operations on references to process objects. -/
def countsProcess : Op → Prop
  | referenceProcess _ | dereferenceProcess _ => True
  | _ => False

/-- The operations on the bus interface. -/
def movesBus : Op → Prop
  | queryInterface | dereferenceInterface => True
  | _ => False

end Op

/-- The request, its buffers holding other bytes. -/
def Request.withBuffers (r : Request) (inBuf outBuf : Nat → UInt8) : Request :=
  { r with inBuf, outBuf }

namespace World

/-- What an operation of thread `t` leaves as it was; `evs` is what it adds to the
thread's history. -/
structure Frame (t : Tid) (o : Op) (evs : List Event) (w w' : World) : Prop where
  ctx : w'.ctx = o.effect w.ctx
  files : w'.files = w.files
  procs : w'.procs = w.procs
  started : w'.started = w.started
  arcLock : ¬ o.movesLock .arc → w'.arcLock = w.arcLock
  stateLock : ¬ o.movesLock .state → w'.stateLock = w.stateLock
  ioMaps : ¬ o.movesIo → w'.ioMaps = w.ioMaps
  views : ¬ o.movesViews → w'.views = w.views
  pool : ¬ o.movesPool → w'.pool = w.pool
  curProc : ¬ o.movesProcess → w'.curProc = w.curProc
  others : ∀ u, u ≠ t → w'.curProc u = w.curProc u
  buffer : ¬ o.writesBuffer → w'.buffer = w.buffer
  contiguous : ¬ o.movesContiguous → w'.contiguous = w.contiguous
  req : ¬ o.writesRequest → w'.req = w.req
  request : w'.req = w.req.withBuffers w'.req.inBuf w'.req.outBuf
  fileGen : ¬ o.stampsFile → w'.fileGen = w.fileGen
  procRefs : ¬ o.countsProcess → w'.procRefs = w.procRefs
  busRefs : ¬ o.movesBus → w'.busRefs = w.busRefs
  hist : w'.hist = Function.update w.hist t (evs ++ w.hist t)

/-- No operation changes whose request it is. -/
theorem Frame.fileObject {t : Tid} {o : Op} {evs : List Event} {w w' : World}
    (h : Frame t o evs w w') : w'.req.fileObject = w.req.fileObject := by
  rw [h.request]
  rfl

/-- No operation changes whether the request's buffers are one. -/
theorem Frame.aliased {t : Tid} {o : Op} {evs : List Event} {w w' : World}
    (h : Frame t o evs w w') : w'.req.aliased = w.req.aliased := by
  rw [h.request]
  rfl

/-- A history with nothing in front of it. -/
theorem hist_nil (t : Tid) (w : World) : w.hist = Function.update w.hist t ([] ++ w.hist t) :=
  (Function.update_eq_self t w.hist).symm

/-- An operation that changes nothing but, maybe, the context. -/
theorem frame_refl (t : Tid) {o : Op} (w : World) (hc : o.effect w.ctx = w.ctx) :
    Frame t o [] w w := by
  constructor <;> intros <;> first | rfl | exact hc.symm | exact hist_nil t w

theorem write_withBuffers (r : Request) (f : (Nat → UInt8) → Nat → UInt8) :
    r.write f = r.withBuffers (r.write f).inBuf (r.write f).outBuf := by
  unfold Request.write
  split <;> rfl

/-- Handing a lock over changes the holder only. -/
theorem frame_lock (t : Tid) {o : Op} (l : Lock) (u : Option Tid) (w : World) (ho : o.movesLock l)
    (hc : o.effect w.ctx = w.ctx) : Frame t o [] w (w.setHolder l u) := by
  cases l <;> constructor <;> intros <;> first
    | rfl | exact hc.symm | contradiction | exact hist_nil t w

/-- Changing the views changes nothing else. -/
theorem frame_views (t : Tid) {o : Op} (vs : List View) (w : World) (ho : o.movesViews)
    (hc : o.effect w.ctx = w.ctx) : Frame t o [] w { w with views := vs } := by
  constructor <;> intros <;> first
    | rfl | exact hc.symm | contradiction | exact hist_nil t w

/-- Mapping a view changes nothing else, at whatever address the environment picks. -/
theorem frame_addView {t : Tid} {o : Op} {w w' : World} {addr : Nat} {span : Span} {e : Choice}
    {x : Except NtStatus UInt64} (h : w.addView t addr span e = some (x, w')) (ho : o.movesViews)
    (hc : o.effect w.ctx = w.ctx) : Frame t o [] w w' := by
  cases e with
  | address a =>
    simp only [addView, Option.ite_none_right_eq_some, Option.some.injEq, Prod.mk.injEq] at h
    exact h.2.2 ▸ frame_views t _ w ho hc
  | fail s =>
    simp only [addView, Option.some.injEq, Prod.mk.injEq] at h
    exact h.2 ▸ frame_refl t w hc
  | _ => simp [addView] at h

/-- Changing the current process of the thread changes nothing else. -/
theorem frame_process {t : Tid} {o : Op} (p : Process) (w : World) (ho : o.movesProcess)
    (hc : o.effect w.ctx = w.ctx) :
    Frame t o [] w { w with curProc := Function.update w.curProc t p } := by
  constructor <;> intros <;> first
    | rfl
    | exact hc.symm
    | contradiction
    | exact Function.update_of_ne ‹_› _ _
    | exact hist_nil t w

theorem frame_write {t : Tid} {o : Op} (f : (Nat → UInt8) → Nat → UInt8) (w : World)
    (ho : o.writesRequest) (hc : o.effect w.ctx = w.ctx) :
    Frame t o [] w { w with req := w.req.write f } := by
  constructor <;> intros <;> first
    | rfl
    | exact hc.symm
    | contradiction
    | exact write_withBuffers w.req f
    | exact hist_nil t w

/-- The frame of a step. -/
theorem step_frame {t : Tid} {o : Op} {e : Choice} {w w' : World} {x : o.Ans}
    (h : w.step t o e = some (x, w')) : Frame t o [] w w' := by
  unfold step at h
  split at h
  case h_3 | h_4 =>
    simp only [Option.ite_none_right_eq_some, Option.some.injEq, Prod.mk.injEq] at h
    exact h.2.2 ▸ frame_lock t _ _ w rfl rfl
  case h_51 =>
    split at h <;> obtain ⟨-, rfl⟩ := Prod.mk.inj (Option.some.inj h)
    · exact frame_views t _ w trivial rfl
    · exact frame_refl t w rfl
  all_goals
    try simp only [Option.ite_none_right_eq_some, Option.ite_none_left_eq_some,
      Option.some.injEq, Prod.mk.injEq, reduceCtorEq] at h
  -- a step that changes nothing, a view, or one component named by its operation
  all_goals first
    | exact h.2 ▸ frame_refl t w rfl
    | exact h.2.2 ▸ frame_refl t w rfl
    | exact frame_addView h trivial rfl
    | exact h.2 ▸ frame_process _ w trivial rfl
    | exact h.2 ▸ frame_write _ w trivial rfl
    | (first | obtain ⟨-, rfl⟩ := h | obtain ⟨-, -, rfl⟩ := h
       constructor <;> intros <;> first
         | rfl
         | exact hist_nil t w
         | (rename_i hn; exact (hn trivial).elim))

/-- The frame of an operation. -/
theorem exec_frame {t : Tid} {o : Op} {e : Choice} {w w' : World} {x : o.Ans}
    (h : w.exec t o e = some (x, w')) : Frame t o [⟨o, x⟩] w w' := by
  obtain ⟨⟨y, w₁⟩, hs, he⟩ := Option.map_eq_some_iff.mp h
  cases he
  have hf := step_frame hs
  have hh : w₁.hist = w.hist := hf.hist.trans (hist_nil t w).symm
  exact { hf with hist := by rw [record, hh]; rfl }

/-- A step whose operation is known, less the record of it. -/
theorem exec_step {t : Tid} {o : Op} {e : Choice} {w w' : World} {x : o.Ans}
    (h : w.exec t o e = some (x, w')) :
    ∃ w₁, w.step t o e = some (x, w₁) ∧ w' = w₁.record t ⟨o, x⟩ := by
  obtain ⟨⟨y, w₁⟩, hs, he⟩ := Option.map_eq_some_iff.mp h
  cases he
  exact ⟨w₁, hs, rfl⟩

/-- A lock another thread holds stays held by it. -/
theorem exec_holder {t u : Tid} {o : Op} {e : Choice} {w w' : World} {x : o.Ans} {l : Lock}
    (h : w.exec t o e = some (x, w')) (hu : u ≠ t) (hl : w.holder l = some u) :
    w'.holder l = some u := by
  have hf := exec_frame h
  by_cases hm : o.movesLock l
  · obtain ⟨w₁, hs, rfl⟩ := exec_step h
    cases o with
    | acquire l' =>
      obtain rfl : l' = l := hm
      simp [step, hl] at hs
    | release l' =>
      obtain rfl : l' = l := hm
      have hne : ¬ some u = some t := by simpa using hu
      simp [step, hl, hne] at hs
    | _ => exact hm.elim
  · cases l with
    | arc => exact (hf.arcLock hm).trans hl
    | state => exact (hf.stateLock hm).trans hl

/-- One operation alone. -/
theorem solo_op {t : Tid} {o : Op} {w w' : World} {x : o.Ans}
    (h : Solo driverMachine t (op o) w x w') : ∃ e, w.exec t o e = some (x, w') :=
  Solo.perform_iff.mp h

end World

/-- An operation of the watched driver. -/
theorem watched_exec {G : Type} {O : TtWind.Effect.Observer DriverSig Tid World G} {t : Tid} {o : Op}
    {e : Choice} {x y : World × G} {a : o.Ans}
    (h : (driverMachine.observe O).exec t o e x = some (a, y)) :
    World.exec t o e x.1 = some (a, y.1) ∧ O.agrees t o a x.1 x.2 = true ∧
      y.2 = O.note t o a x.1 x.2 := TtWind.Effect.Machine.observe_exec.mp h

/-! ## Steps that are not operations -/

/-- A call begins with the context as it is. -/
theorem begins_ctx {L : Tid → Prop} {t : Tid} {p : Drv Unit} {w w' : World}
    (h : Begins L t p w w') : w'.ctx = w.ctx := by cases h <;> rfl

/-- A beginning empties the history of its thread, and no other. -/
theorem begins_empty {L : Tid → Prop} {t : Tid} {p : Drv Unit} {w w' : World}
    (h : Begins L t p w w') : w'.hist = Function.update w.hist t [] := by cases h <;> rfl

theorem begins_hist_self {L : Tid → Prop} {t : Tid} {p : Drv Unit} {w w' : World}
    (h : Begins L t p w w') : w'.hist t = [] := by
  rw [begins_empty h, Function.update_self]

/-- A call that begins leaves the histories of the others. -/
theorem begins_hist {L : Tid → Prop} {t u : Tid} {p : Drv Unit} {w w' : World}
    (h : Begins L t p w w') (hu : u ≠ t) : w'.hist u = w.hist u := by
  rw [begins_empty h, Function.update_of_ne hu]

/-- Only a request's beginning brings a request. -/
theorem begins_req {L : Tid → Prop} {t : Tid} {p : Drv Unit} {w w' : World}
    (h : Begins L t p w w') (ht : t ≠ .ioctl) : w'.req = w.req := by
  cases h with
  | ioctl => exact absurd rfl ht
  | _ => rfl

/-- The environment does not touch the context. -/
theorem environment_ctx {w w' : World} (h : Environment w w') : w'.ctx = w.ctx := by
  cases h <;> rfl

@[simp] theorem World.leave_ctx (w : World) (t : Tid) : (w.leave t).ctx = w.ctx := by
  cases t <;> rfl

end TtWind
