import TtWind.Laws.Frame

/-!
# Running code alone

How a handler executes when nothing interferes: one rule for the operations that
leave the environment no choice, and its instances for the operations the
handlers are made of. A run is then followed by rewriting from the front.

A run alone says what a handler does to the world it finds, for every answer the environment may
give (`Solo`), or for the answers listed (`Replay`). Nothing here says what a handler does among
other threads: that is for the protocols of `TtWind.Effect.Rely` and for the histories of a call.
-/

set_option autoImplicit false

namespace TtWind

open TtWind.Effect (Prog Solo)

namespace World

variable (w : World) (t : Tid) (ev : Event)

/-- Noting an operation in the history leaves the context, and the components below. -/
@[simp] theorem record_ctx : (w.record t ev).ctx = w.ctx := rfl

@[simp] theorem record_req : (w.record t ev).req = w.req := rfl

@[simp] theorem record_views : (w.record t ev).views = w.views := rfl

@[simp] theorem record_buffer : (w.record t ev).buffer = w.buffer := rfl

@[simp] theorem record_curProc : (w.record t ev).curProc = w.curProc := rfl

/-- Handing a lock over leaves the context, and the components below. -/
@[simp] theorem setHolder_ctx (l : Lock) (u : Option Tid) : (w.setHolder l u).ctx = w.ctx := by
  cases l <;> rfl

@[simp] theorem setHolder_req (l : Lock) (u : Option Tid) : (w.setHolder l u).req = w.req := by
  cases l <;> rfl

@[simp] theorem setHolder_views (l : Lock) (u : Option Tid) :
    (w.setHolder l u).views = w.views := by
  cases l <;> rfl

@[simp] theorem setHolder_buffer (l : Lock) (u : Option Tid) :
    (w.setHolder l u).buffer = w.buffer := by
  cases l <;> rfl

end World

/-- A store to the output is read back from it, whether or not the buffers are one. -/
@[simp] theorem Request.output_write (r : Request) (f : (Nat → UInt8) → Nat → UInt8) :
    (r.write f).output = f r.output := by
  simp only [Request.write, Request.output]
  split <;> simp_all

/-- A byte that a store to the output would not change is not changed in the input. -/
theorem Request.write_inBuf {r : Request} {f : (Nat → UInt8) → Nat → UInt8} {i : Nat}
    (h : f r.inBuf i = r.inBuf i) : (r.write f).inBuf i = r.inBuf i := by
  unfold Request.write
  split
  · exact h
  · rfl

/-! ## Operations that leave the request, the context and the views -/

/-- Nothing a caller of a handler can see has changed. -/
def World.Quiet (w w' : World) : Prop := w'.ctx = w.ctx ∧ w'.req = w.req ∧ w'.views = w.views

/-- The operation leaves all that a caller of a handler can see. -/
def Op.quiet (o : Op) : Prop := (∀ c, o.effect c = c) ∧ ¬ o.writesRequest ∧ ¬ o.movesViews

/-- Quiet steps one after the other. -/
theorem World.Quiet.trans {u v w : World} (h₁ : u.Quiet v) (h₂ : v.Quiet w) : u.Quiet w :=
  ⟨h₂.1.trans h₁.1, h₂.2.1.trans h₁.2.1, h₂.2.2.trans h₁.2.2⟩

theorem World.Quiet.record (w : World) (t : Tid) (ev : Event) : w.Quiet (w.record t ev) :=
  ⟨rfl, rfl, rfl⟩

/-- A quiet operation takes a quiet step. -/
theorem World.exec_quiet {t : Tid} {o : Op} {e : Choice} {w w' : World} {x : o.Ans} (ho : o.quiet)
    (h : w.exec t o e = some (x, w')) : w.Quiet w' := by
  have hf := World.exec_frame h
  exact ⟨hf.ctx.trans (ho.1 _), hf.req ho.2.1, hf.views ho.2.2⟩

/-- Code of quiet operations runs quietly. -/
theorem solo_quiet {t : Tid} {α : Type} {p : Drv α} (hp : p.Only Op.quiet) {w w' : World} {a : α}
    (h : Effect.Solo driverMachine t p w a w') : w.Quiet w' :=
  Effect.Solo.keeps (fun _ => ⟨rfl, rfl, rfl⟩) World.Quiet.trans
    (fun _ ho {_ _ _ _} he => World.exec_quiet ho he) hp h

/-- One quiet operation, as a program of its own. -/
theorem solo_op_quiet {t : Tid} {o : Op} (ho : o.quiet) {w w' : World} {x : o.Ans}
    (h : Effect.Solo driverMachine t (op o) w x w') : w.Quiet w' :=
  let ⟨_, he⟩ := World.solo_op h
  World.exec_quiet ho he

/-- The history of a run alone is what led its code to its value. -/
theorem solo_hist {t : Tid} {α : Type} {p : Drv α} {w w' : World} {a : α}
    (h : Effect.Solo driverMachine t p w a w') :
    ∃ evs, p.Leads (S := DriverSig) evs (.pure a) ∧ w'.hist t = evs ++ w.hist t := by
  induction h with
  | pure a w => exact ⟨[], .start, rfl⟩
  | @vis o k e w w₁ w' x a he _ ih =>
    obtain ⟨evs, hleads, hhist⟩ := ih
    have hfirst : w₁.hist t = ⟨o, x⟩ :: w.hist t := by
      rw [(World.exec_frame he).hist, Function.update_self]
      rfl
    refine ⟨evs ++ [⟨o, x⟩], hleads.prepend, ?_⟩
    rw [hhist, hfirst, List.append_assoc]
    rfl

namespace Solo

variable {α : Type} {t : Tid} {w w' : World} {b : α}

/-- An operation in front: some choice of the environment answers it. -/
theorem op_bind {o : Op} {f : o.Ans → Drv α} :
    Solo driverMachine t (op o >>= f) w b w' ↔
      ∃ e x w₁, w.step t o e = some (x, w₁) ∧
        Solo driverMachine t (f x) (w₁.record t ⟨o, x⟩) b w' := by
  rw [Prog.perform_bind, Solo.vis_iff]
  constructor
  · rintro ⟨e, x, w₂, he, hk⟩
    obtain ⟨w₁, hs, rfl⟩ := World.exec_step he
    exact ⟨e, x, w₁, hs, hk⟩
  · rintro ⟨e, x, w₁, hs, hk⟩
    refine ⟨e, x, w₁.record t ⟨o, x⟩, ?_, hk⟩
    simp only [driverMachine_exec, World.exec, hs, Option.map_some]

/-- An operation in front that leaves the environment no choice. -/
theorem det_bind {o : Op} {f : o.Ans → Drv α} {x : o.Ans} {w₁ : World}
    (h : ∀ e, w.step t o e = some (x, w₁)) :
    Solo driverMachine t (op o >>= f) w b w' ↔
      Solo driverMachine t (f x) (w₁.record t ⟨o, x⟩) b w' := by
  rw [op_bind]
  constructor
  · rintro ⟨e, y, w₂, hs, hk⟩
    rw [h e, Option.some.injEq, Prod.mk.injEq] at hs
    obtain ⟨rfl, rfl⟩ := hs
    exact hk
  · intro hk
    exact ⟨.unit, x, w₁, h .unit, hk⟩

/-- A load answers the context. -/
@[simp] theorem load_bind {f : DeviceContext → Drv α} :
    Solo driverMachine t (load >>= f) w b w' ↔
      Solo driverMachine t (f w.ctx) (w.record t ⟨.load, w.ctx⟩) b w' :=
  det_bind fun _ => rfl

/-- A store applies its function to the context. -/
@[simp] theorem store_bind {g : DeviceContext → DeviceContext} {f : Unit → Drv α} :
    Solo driverMachine t (store g >>= f) w b w' ↔
      Solo driverMachine t (f ()) ({ w with ctx := g w.ctx }.record t ⟨.store g, ()⟩) b w' :=
  det_bind fun _ => rfl

/-- The framework refuses an input buffer that is too short. -/
@[simp] theorem retrieveInputBuffer_bind {len : Nat} {f : NtStatus → Drv α} :
    Solo driverMachine t (retrieveInputBuffer len >>= f) w b w' ↔
      Solo driverMachine t (f (if w.req.inLen < len then .bufferTooSmall else .success))
        (w.record t ⟨.inputBuffer len, if w.req.inLen < len then .bufferTooSmall else .success⟩)
        b w' :=
  det_bind fun _ => rfl

/-- The framework refuses an output buffer that is too short. -/
@[simp] theorem retrieveOutputBuffer_bind {len : Nat} {f : NtStatus → Drv α} :
    Solo driverMachine t (retrieveOutputBuffer len >>= f) w b w' ↔
      Solo driverMachine t (f (if w.req.outLen < len then .bufferTooSmall else .success))
        (w.record t ⟨.outputBuffer len, if w.req.outLen < len then .bufferTooSmall else .success⟩)
        b w' :=
  det_bind fun _ => rfl

/-- A register write leaves the world, but for the history. -/
theorem writeRegister_bind {p : IoPtr} {off : Nat} {v : UInt32} {f : Unit → Drv α} :
    Solo driverMachine t (writeRegister p off v >>= f) w b w' ↔
      Solo driverMachine t (f ()) (w.record t ⟨.mmioWrite p off v, ()⟩) b w' :=
  det_bind fun _ => rfl

/-- A run that succeeds was not refused. -/
theorem refuse_iff {c : Prop} [Decidable c] {s : NtStatus} {m n : Nat}
    {p : Drv (NtStatus × Nat)} (hs : s ≠ .success) :
    Solo driverMachine t (if c then pure (s, m) else p) w (.success, n) w' ↔
      ¬ c ∧ Solo driverMachine t p w (.success, n) w' := by
  split
  · rename_i hc
    constructor
    · intro h
      obtain ⟨heq, -⟩ := Solo.pure_iff.mp h
      exact absurd (Prod.mk.inj heq).1.symm hs
    · rintro ⟨hnc, -⟩
      exact absurd hc hnc
  · rename_i hc
    exact ⟨fun h => ⟨hc, h⟩, fun h => h.2⟩

/-- A handler that succeeds was given an input buffer that is long enough. -/
theorem checkInput_iff {len m n : Nat} {p : Drv (NtStatus × Nat)} :
    Solo driverMachine t (do
        let status ← retrieveInputBuffer len
        if !status.ok then return (status, m)
        p) w (.success, n) w' ↔
      len ≤ w.req.inLen ∧
        Solo driverMachine t p (w.record t ⟨.inputBuffer len, .success⟩) (.success, n) w' := by
  rw [retrieveInputBuffer_bind]
  by_cases hlen : w.req.inLen < len
  · rw [if_pos hlen, refuse_iff (by simp)]
    exact ⟨fun h => absurd rfl h.1, fun h => absurd hlen (Nat.not_lt.mpr h.1)⟩
  · rw [if_neg hlen]
    exact ⟨fun h => ⟨Nat.not_lt.mp hlen, h⟩, fun h => h.2⟩

/-- A handler that succeeds was given an output buffer that is long enough. -/
theorem checkOutput_iff {len m n : Nat} {p : Drv (NtStatus × Nat)} :
    Solo driverMachine t (do
        let status ← retrieveOutputBuffer len
        if !status.ok then return (status, m)
        p) w (.success, n) w' ↔
      len ≤ w.req.outLen ∧
        Solo driverMachine t p (w.record t ⟨.outputBuffer len, .success⟩) (.success, n) w' := by
  rw [retrieveOutputBuffer_bind]
  by_cases hlen : w.req.outLen < len
  · rw [if_pos hlen, refuse_iff (by simp)]
    exact ⟨fun h => absurd rfl h.1, fun h => absurd hlen (Nat.not_lt.mpr h.1)⟩
  · rw [if_neg hlen]
    exact ⟨fun h => ⟨Nat.not_lt.mp hlen, h⟩, fun h => h.2⟩

/-- A field of eight bytes is read from the input buffer. -/
@[simp] theorem inU64_bind {off : Nat} {f : UInt64 → Drv α} :
    Solo driverMachine t (inU64 off >>= f) w b w' ↔
      Solo driverMachine t (f (UInt64.ofNat (leNat w.req.inBuf off 8)))
        (w.record t ⟨.inField off 8, leNat w.req.inBuf off 8⟩) b w' :=
  det_bind (o := .inField off 8) (f := fun n => f (UInt64.ofNat n)) fun _ => rfl

/-- A field of four bytes is read from the input buffer. -/
theorem inU32_bind {off : Nat} {f : UInt32 → Drv α} :
    Solo driverMachine t (inU32 off >>= f) w b w' ↔
      Solo driverMachine t (f (UInt32.ofNat (leNat w.req.inBuf off 4)))
        (w.record t ⟨.inField off 4, leNat w.req.inBuf off 4⟩) b w' :=
  det_bind (o := .inField off 4) (f := fun n => f (UInt32.ofNat n)) fun _ => rfl

/-- The start of the output buffer is zeroed, which may be the input buffer. -/
@[simp] theorem outZero_bind {len : Nat} {f : Unit → Drv α} :
    Solo driverMachine t (outZero len >>= f) w b w' ↔
      Solo driverMachine t (f ())
        ({ w with req := w.req.write fun b i => if i < len then 0 else b i }.record t
          ⟨.outZero len, ()⟩) b w' :=
  det_bind fun _ => rfl

/-- A field of eight bytes is stored in the output buffer. -/
@[simp] theorem outU64_bind {off : Nat} {v : UInt64} {f : Unit → Drv α} :
    Solo driverMachine t (outU64 off v >>= f) w b w' ↔
      Solo driverMachine t (f ())
        ({ w with req := w.req.write fun b => leStore b off 8 v.toNat }.record t
          ⟨.outField off 8 v.toNat, ()⟩) b w' :=
  det_bind fun _ => rfl

end Solo

/-! ## The same with the choices listed -/

namespace Replay

variable {α : Type} {t : Tid} {w : World} {es : List Choice} {r : α × World}

/-- An operation in front takes the first choice. -/
theorem op_bind {o : Op} {f : o.Ans → Drv α} :
    driverMachine.replay t (op o >>= f) es w = some r ↔
      ∃ e es' x w₁, es = e :: es' ∧ w.step t o e = some (x, w₁) ∧
        driverMachine.replay t (f x) es' (w₁.record t ⟨o, x⟩) = some r := by
  rw [Prog.perform_bind, Effect.Machine.replay_vis]
  constructor
  · rintro ⟨e, es', x, w₂, rfl, he, hk⟩
    obtain ⟨w₁, hs, rfl⟩ := World.exec_step he
    exact ⟨e, es', x, w₁, rfl, hs, hk⟩
  · rintro ⟨e, es', x, w₁, rfl, hs, hk⟩
    refine ⟨e, es', x, w₁.record t ⟨o, x⟩, rfl, ?_, hk⟩
    simp only [driverMachine_exec, World.exec, hs, Option.map_some]

/-- Where it leaves no choice, it takes one all the same. -/
theorem det_bind {o : Op} {f : o.Ans → Drv α} {x : o.Ans} {w₁ : World}
    (h : ∀ e, w.step t o e = some (x, w₁)) :
    driverMachine.replay t (op o >>= f) es w = some r ↔
      ∃ e es', es = e :: es' ∧
        driverMachine.replay t (f x) es' (w₁.record t ⟨o, x⟩) = some r := by
  rw [op_bind]
  constructor
  · rintro ⟨e, es', y, w₂, rfl, hs, hk⟩
    rw [h e, Option.some.injEq, Prod.mk.injEq] at hs
    obtain ⟨rfl, rfl⟩ := hs
    exact ⟨e, es', rfl, hk⟩
  · rintro ⟨e, es', rfl, hk⟩
    exact ⟨e, es', x, w₁, rfl, h e, hk⟩

theorem load_bind {f : DeviceContext → Drv α} :
    driverMachine.replay t (load >>= f) es w = some r ↔
      ∃ e es', es = e :: es' ∧
        driverMachine.replay t (f w.ctx) es' (w.record t ⟨.load, w.ctx⟩) = some r :=
  det_bind fun _ => rfl

theorem store_bind {g : DeviceContext → DeviceContext} {f : Unit → Drv α} :
    driverMachine.replay t (store g >>= f) es w = some r ↔
      ∃ e es', es = e :: es' ∧
        driverMachine.replay t (f ()) es' ({ w with ctx := g w.ctx }.record t ⟨.store g, ()⟩) =
          some r :=
  det_bind fun _ => rfl

theorem inU64_bind {off : Nat} {f : UInt64 → Drv α} :
    driverMachine.replay t (inU64 off >>= f) es w = some r ↔
      ∃ e es', es = e :: es' ∧
        driverMachine.replay t (f (UInt64.ofNat (leNat w.req.inBuf off 8))) es'
          (w.record t ⟨.inField off 8, leNat w.req.inBuf off 8⟩) = some r :=
  det_bind (o := .inField off 8) (f := fun n => f (UInt64.ofNat n)) fun _ => rfl

/-- The length check of the input: the request is too short, or the code goes on. -/
theorem checkInput {len : Nat} {g : NtStatus → α} {p : Drv α}
    (h : driverMachine.replay t (retrieveInputBuffer len >>= fun status =>
      if !status.ok then Pure.pure (g status) else p) es w = some r) :
    ∃ e es', es = e :: es' ∧
      ((w.req.inLen < len ∧ ∃ w₁, driverMachine.replay t (Pure.pure (g .bufferTooSmall)) es' w₁ =
          some r) ∨
        (len ≤ w.req.inLen ∧
          driverMachine.replay t p es' (w.record t ⟨.inputBuffer len, .success⟩) = some r)) := by
  rw [retrieveInputBuffer, det_bind fun _ => rfl] at h
  obtain ⟨e, es', rfl, h⟩ := h
  refine ⟨e, es', rfl, ?_⟩
  by_cases hlen : w.req.inLen < len
  · rw [if_pos hlen] at h
    exact .inl ⟨hlen, _, h⟩
  · rw [if_neg hlen] at h
    exact .inr ⟨Nat.not_lt.mp hlen, h⟩

theorem checkOutput {len : Nat} {g : NtStatus → α} {p : Drv α}
    (h : driverMachine.replay t (retrieveOutputBuffer len >>= fun status =>
      if !status.ok then Pure.pure (g status) else p) es w = some r) :
    ∃ e es', es = e :: es' ∧
      ((w.req.outLen < len ∧ ∃ w₁, driverMachine.replay t (Pure.pure (g .bufferTooSmall)) es' w₁ =
          some r) ∨
        (len ≤ w.req.outLen ∧
          driverMachine.replay t p es' (w.record t ⟨.outputBuffer len, .success⟩) = some r)) := by
  rw [retrieveOutputBuffer, det_bind fun _ => rfl] at h
  obtain ⟨e, es', rfl, h⟩ := h
  refine ⟨e, es', rfl, ?_⟩
  by_cases hlen : w.req.outLen < len
  · rw [if_pos hlen] at h
    exact .inl ⟨hlen, _, h⟩
  · rw [if_neg hlen] at h
    exact .inr ⟨Nat.not_lt.mp hlen, h⟩

end Replay

end TtWind
