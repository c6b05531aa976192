import TtWind.Laws.Advertised
import TtWind.Laws.Guarded

/-!
# No buffer is advertised while the device is suspended

Suspend takes the flag back and Restart's arm may set it again; in between, the only arm is
that of a POST_RESET. Nothing in the driver records that it is suspended, so such an arm sets
the flag if the card answers: the flag stays down as long as no request begins to arm in
between.
-/

set_option autoImplicit false

namespace TtWind

open TtWind.Effect TtWind.Effect.Prog TtWind.Effect.Protocol

/-- The store takes the flag back whatever it was. -/
def lowers (f : DeviceContext → DeviceContext) : Bool :=
  !(f { sysmemVerified := true }).sysmemVerified

/-- The log of the power callbacks: the device is suspended from the moment Suspend has
invalidated the buffer, with the second operation of its call, to the first store of the
arm of Init or Restart, which comes after an exchange with the firmware. -/
def suspendLog : Observer DriverSig Tid World Bool where
  initial _ g := g = false
  note
    | .power, .store f, _, w, g => if lowers f then (w.hist .power).length == 1 else g
    | _, _, _, _, g => g

/-- No request begins to arm while the device is suspended. -/
def armsAwake (t : Tid) (o : Op) (x : World × Bool) : Prop :=
  ∀ f, t = .ioctl → o = .store f → lowers f = true → x.1.ctx.needsHwInit = false → x.2 = false

/-- The flag, whether a reset is in flight, and whether the device is suspended. -/
structure SuspendView where
  verified : Bool
  needs : Bool
  suspended : Bool

/-- While the device is suspended, the flag is down. -/
def suspending : Guarded Bool SuspendView where
  log := suspendLog
  view c g := ⟨c.sysmemVerified, c.needsHwInit, g⟩
  allow := armsAwake
  inv _ _ v := v.suspended = true → v.verified = false

/-- What the thread's stores may do to the flag: none sets it, and those of a power callback
take it back for good or leave it. -/
def Op.KeepsDark (t : Tid) (o : Op) : Prop :=
  ∀ f, o = .store f → (∀ c, (f c).sysmemVerified = true → c.sysmemVerified = true) ∧
    (t = .power → (∀ c, (f c).sysmemVerified = c.sysmemVerified) ∨ ∀ c, (f c).sysmemVerified = false)

theorem keepsDark_of_not_store {t : Tid} {o : Op} (h : ∀ f, o ≠ .store f) : o.KeepsDark t :=
  fun f hf => absurd hf (h f)

theorem keepsDark_of_same {t : Tid} {f : DeviceContext → DeviceContext}
    (h : ∀ c, (f c).sysmemVerified = c.sysmemVerified) : (Op.store f).KeepsDark t := by
  intro f' hf'
  obtain rfl := Op.store.inj hf'
  exact ⟨fun c hc => (h c).symm.trans hc, fun _ => .inl h⟩

section Step

variable {t : Tid} {o : Op} {e : Choice} {x y : World × Bool} {a : o.Ans}

/-- Only a store changes what is watched. -/
theorem suspending_of_not_store (ho : ∀ f, o ≠ .store f)
    (he : (driverMachine.observe suspendLog).exec t o e x = some (a, y)) :
    suspending.of y = suspending.of x := by
  refine Guarded.of_spares ⟨fun f hf => absurd hf (ho f), fun s _ c g => ?_, fun u a w c g => ?_⟩ he
  · show SuspendView.mk (s.run c).2.sysmemVerified (s.run c).2.needsHwInit g = _
    rw [Section.run_frame c s]
    rfl
  · show SuspendView.mk c.sysmemVerified c.needsHwInit (suspendLog.note u o a w g) = _
    cases o with
    | store f => exact absurd rfl (ho f)
    | _ => cases u <;> rfl

/-- A step of the driver is within the guarantee: its stores are made by who owns the view. -/
theorem suspending_guar (ha : suspending.protocol.allow t o x)
    (he : (driverMachine.observe suspendLog).exec t o e x = some (a, y)) :
    suspending.protocol.guar t x y := by
  refine Guarded.guar_of_exec ha he fun hn => suspending_of_not_store (fun f hf => ?_) he
  subst hf
  rcases ha.1.2 with ⟨hworks, hlock, -⟩ | ⟨hhw, -⟩
  · exact hn (.inl ⟨hworks, hlock⟩)
  · exact hn (.inr hhw)

/-- Such a step keeps the flag down while the device is suspended. -/
theorem keepsDark_step {L : Tid → Prop} (ho : o.KeepsDark t) (hinv : suspending.protocol.inv L x)
    (he : (driverMachine.observe suspendLog).exec t o e x = some (a, y)) :
    suspending.protocol.inv L y := by
  have hinv : x.2 = true → x.1.ctx.sysmemVerified = false := hinv
  show y.2 = true → y.1.ctx.sysmemVerified = false
  by_cases hstore : ∃ f, o = .store f
  · obtain ⟨f, rfl⟩ := hstore
    obtain ⟨hmodest, hpower⟩ := ho f rfl
    obtain ⟨hexec, -, hnote⟩ := watched_exec he
    have hctx : y.1.ctx = f x.1.ctx := (World.exec_frame hexec).ctx
    rw [hctx]
    intro hy
    have hkept : y.2 = x.2 → (f x.1.ctx).sysmemVerified = false := by
      intro hsame
      refine Bool.eq_false_iff.mpr fun hv => ?_
      have hdark := hinv (hsame ▸ hy)
      rw [hmodest _ hv] at hdark
      cases hdark
    by_cases ht : t = .power
    · subst ht
      rcases hpower rfl with hsame | hdown
      · have hstays : lowers f = false := by rw [lowers, hsame]; rfl
        apply hkept
        simpa [suspendLog, hstays] using hnote
      · exact hdown _
    · apply hkept
      cases t <;> first | exact absurd rfl ht | exact hnote
  · have hview := suspending_of_not_store (fun f hf => hstore ⟨f, hf⟩) he
    have hv : y.1.ctx.sysmemVerified = x.1.ctx.sysmemVerified := congrArg SuspendView.verified hview
    have hs : y.2 = x.2 := congrArg SuspendView.suspended hview
    rw [hv, hs]
    exact hinv

variable {α : Type} {P : World × Bool → Prop}

/-- Programs of such steps keep whatever of their own their steps keep. -/
theorem keepsDark_keeps (hP : suspending.protocol.Stable t P) {K : Op → Prop} (hK : ∀ o, K o → o.KeepsDark t)
    (hkeep : ∀ o, K o → ∀ {e : Choice} {a : o.Ans} {x y : World × Bool},
      (driverMachine.observe suspendLog).exec t o e x = some (a, y) → P x → P y)
    {p : Drv α} (hp : p.Only K) : suspending.protocol.Keeps (driverMachine.observe suspendLog) t P p := by
  refine Keeps.of_within (J := fun _ _ => True) hP (fun _ _ _ _ _ => trivial) ?_ hp
  intro o ho x L e a y hx _ hinv ha he
  exact ⟨keepsDark_step (hK o ho) hinv he, suspending_guar ha he, hkeep o ho he hx, trivial⟩

end Step

/-! ## The arm -/

section Arm

variable {t : Tid} {α : Type}

/-- The thread has performed `n` operations of its call. -/
def Performed (t : Tid) (n : Nat) (x : World × Bool) : Prop := n ≤ (x.1.hist t).length

theorem stable_performed (ht : t.Works) (n : Nat) : suspending.protocol.Stable t (Performed t n) := by
  intro x y hr h
  have hkept : suspending.Kept t x y := hr ht.drives
  rw [Performed, hkept.hist]
  exact h

theorem Performed.step {o : Op} {e : Choice} {a : o.Ans} {x y : World × Bool} {n : Nat}
    (he : (driverMachine.observe suspendLog).exec t o e x = some (a, y)) (h : Performed t n x) :
    Performed t (n + 1) y := by
  rw [Performed, (World.exec_frame (watched_exec he).1).hist, Function.update_self]
  simp only [List.singleton_append, List.length_cons]
  exact Nat.succ_le_succ h

/-- Under ArcLock, in a call past its first two operations if it is a power callback's. -/
structure InArm (t : Tid) (Φ : SuspendView → Prop) (x : World × Bool) : Prop
    extends suspending.Held t Φ x where
  past : t = .power → Performed t 2 x

theorem stable_inArm (ht : t.Works) {Φ : SuspendView → Prop} : suspending.protocol.Stable t (InArm t Φ) :=
  fun x y hr h => ⟨Guarded.stable_held ht x y hr h.toHeld, fun hp => stable_performed ht 2 x y hr (h.past hp)⟩

/-- The arm takes the flag back, and from then on knows that the device is not suspended, unless
a reset is in flight. -/
theorem begins_arm (ht : t.Works) {k : Unit → Drv α} {Q : α → World × Bool → Prop}
    (hk : suspending.protocol.Triple (driverMachine.observe suspendLog) t
      (InArm t fun v => v.needs = false → v.suspended = false) (k ()) Q) :
    suspending.protocol.Triple (driverMachine.observe suspendLog) t (InArm t fun _ => True)
      (.vis (.store fun c => { c with sysmemVerified := false }) k) Q := by
  refine Triple.vis (I := fun _ => InArm t fun v => v.needs = false → v.suspended = false) (stable_inArm ht)
    (fun _ _ _ => trivial) ?_ fun _ => hk
  intro x L e a y hx _ hinv ha he
  obtain ⟨hexec, -, hnote⟩ := watched_exec he
  have hframe := World.exec_frame hexec
  have hctx : y.1.ctx = { x.1.ctx with sysmemVerified := false } := hframe.ctx
  have hdark : (Op.store fun c => { c with sysmemVerified := false }).KeepsDark t := by
    intro f hf
    obtain rfl := Op.store.inj hf
    exact ⟨fun _ hset => absurd hset Bool.false_ne_true, fun _ => .inr fun _ => rfl⟩
  refine ⟨keepsDark_step hdark hinv he, suspending_guar ha he, ⟨(hframe.arcLock id).trans hx.lock, ?_⟩,
    fun hp => Nat.le_of_succ_le (Performed.step he (hx.past hp))⟩
  show y.1.ctx.needsHwInit = false → y.2 = false
  rw [hctx]
  intro hneeds
  rcases ht with rfl | rfl
  · have hlowers : lowers (fun c => { c with sysmemVerified := false }) = true := rfl
    have hawake : armsAwake .ioctl (.store fun c => { c with sysmemVerified := false }) x := ha.2
    have hsame : y.2 = x.2 := hnote
    rw [hsame]
    exact hawake _ rfl rfl hlowers hneeds
  · have hlong : 2 ≤ (x.1.hist .power).length := hx.past rfl
    have hnote : y.2 = ((x.1.hist .power).length == 1) := hnote
    rw [hnote]
    exact beq_eq_false_iff_ne.mpr (by omega)

/-- What the rest of the arm does: whatever it stores, it does not take the flag back. -/
def armingFoot (o : Op) : Prop := (∀ f, o = .store f → lowers f = false) ∧ ¬ o.movesLock .arc

/-- An arm that goes on is not in a suspended device. -/
theorem arming_keeps (ht : t.Works) {p : Drv α} (hp : p.Only armingFoot) :
    suspending.protocol.Keeps (driverMachine.observe suspendLog) t
      (InArm t fun v => v.suspended = false) p := by
  refine Keeps.of_within (J := fun _ _ => True) (stable_inArm ht) (fun _ _ _ _ _ => trivial) ?_ hp
  intro o ho x L e a y hx _ _ ha he
  obtain ⟨hexec, -, hnote⟩ := watched_exec he
  have hawake : y.2 = false := by
    have hx : x.2 = false := hx.state
    have hsame : y.2 = x.2 := by
      cases o with
      | store f =>
        have hstays := ho.1 f rfl
        cases t <;> first | exact hnote | simpa [suspendLog, hstays] using hnote
      | _ => cases t <;> exact hnote
    exact hsame.trans hx
  refine ⟨fun hy => ?_, suspending_guar ha he,
    ⟨⟨((World.exec_frame hexec).arcLock ho.2).trans hx.lock, hawake⟩,
      fun hp => Nat.le_of_succ_le (Performed.step he (hx.past hp))⟩, trivial⟩
  rw [show y.2 = true from hy] at hawake
  cases hawake

theorem lowers_of_same {f : DeviceContext → DeviceContext}
    (h : ∀ c, (f c).sysmemVerified = c.sysmemVerified) : lowers f = false := by
  rw [lowers, h]
  rfl

theorem arcScope_arming : ArcScope (fun _ _ => True) armingFoot where
  silent o ho := by
    refine ⟨fun f hf => ?_, ?_⟩
    · subst hf
      exact (ho : False).elim
    · cases o <;> first | exact id | exact (ho : False).elim
  route _ _ := ⟨fun f hf => by obtain rfl := Op.store.inj hf; rfl, id⟩
  regs _ _ _ _ _ := ⟨⟨nofun, id⟩, fun _ => ⟨nofun, id⟩⟩
  window _ _ _ _ := ⟨⟨nofun, id⟩, fun _ => ⟨nofun, id⟩⟩
  axi _ _ _ _ := ⟨⟨nofun, id⟩, fun _ => ⟨nofun, id⟩⟩
  store f _ _ hv _ := by
    refine ⟨fun f' hf' => ?_, id⟩
    obtain rfl := Op.store.inj hf'
    exact lowers_of_same hv
  iatu _ _ _ _ := ⟨⟨nofun, id⟩, fun _ => ⟨nofun, id⟩⟩
  nocId _ _ _ _ := ⟨nofun, id⟩

theorem setVerified_arming (status : NtStatus) : (setVerified status).Only armingFoot := by
  have hstore : ∀ {f : DeviceContext → DeviceContext}, lowers f = false → armingFoot (.store f) := by
    intro f hf
    refine ⟨fun f' hf' => ?_, id⟩
    obtain rfl := Op.store.inj hf'
    exact hf
  unfold setVerified
  refine Within.ite (fun _ => trivial) fun _ => ⟨hstore rfl, fun _ _ => ⟨hstore rfl, fun _ _ => trivial⟩⟩

/-- The whole arm. -/
theorem armLocked_suspend (ht : t.Works) :
    suspending.protocol.Keeps (driverMachine.observe suspendLog) t (InArm t fun _ => True) armLocked := by
  refine begins_arm ht ?_
  refine Triple.vis (I := fun (c : DeviceContext) => InArm t fun v => c.needsHwInit = false → v.suspended = false)
    (stable_inArm ht) (fun _ _ _ => trivial) ?_ fun c => ?_
  · intro x L e c y hx _ hinv ha he
    have hexec := (watched_exec he).1
    have hload : ∀ f, Op.load ≠ .store f := fun f hf => by cases hf
    have hview : suspending.of y = suspending.of x := suspending_of_not_store hload he
    obtain ⟨w₁, hs, -⟩ := World.exec_step hexec
    obtain ⟨rfl, -⟩ := Prod.mk.inj (Option.some.inj hs)
    refine ⟨keepsDark_step (keepsDark_of_not_store hload) hinv he, suspending_guar ha he,
      ⟨⟨((World.exec_frame hexec).arcLock id).trans hx.lock, ?_⟩,
        fun hp => Nat.le_of_succ_le (Performed.step he (hx.past hp))⟩⟩
    rw [hview]
    exact hx.state
  refine Triple.ite (fun _ => ?_) fun hclear => ?_
  · exact Triple.pure (stable_inArm ht) fun x hx => ⟨⟨hx.lock, trivial⟩, hx.past⟩
  have hclear : c.needsHwInit = false := by simpa using hclear
  have hstages : armStages.Only armingFoot := by
    rw [armStages_eq]
    have hword : ∀ off v, armingFoot (.bufferWrite off v) := fun _ _ => ⟨nofun, id⟩
    exact (armChecks_within arcScope_arming hword).bind fun status => setVerified_arming status
  have hrest : (armStages >>= fun status => store (fun c => { c with sysmemLastStatus := status }) >>=
      fun _ => Pure.pure status).Only armingFoot :=
    hstages.bind fun _ => ⟨⟨fun f hf => by obtain rfl := Op.store.inj hf; rfl, id⟩, fun _ _ => trivial⟩
  refine Triple.weaken (arming_keeps ht hrest)
    (fun x hx => ⟨⟨hx.lock, hx.state hclear⟩, hx.past⟩) fun _ x hx => ⟨⟨hx.lock, trivial⟩, hx.past⟩

end Arm

/-! ## The threads at work -/

section Works

variable {t : Tid}

/-- Outside ArcLock, a power callback is past its first two operations. -/
def Started (t : Tid) (x : World × Bool) : Prop := t = .power → Performed t 2 x

/-- What a thread at work does beside the arm. -/
def darkFoot (t : Tid) (o : Op) : Prop := o.KeepsDark t ∧ ¬ o.movesLock .arc

theorem darkFoot_of_plain {o : Op} (ho : o.plain) : darkFoot t o := by
  refine ⟨keepsDark_of_not_store fun f hf => ?_, ?_⟩
  · subst hf
    exact ho
  · cases o <;> first | exact id | exact (ho : False).elim

theorem started_keeps (ht : t.Works) {α : Type} {p : Drv α} (hp : p.Only fun o : Op => o.KeepsDark t) :
    suspending.protocol.Keeps (driverMachine.observe suspendLog) t (Started t) p := by
  refine keepsDark_keeps (fun x y hr h hp => stable_performed ht 2 x y hr (h hp)) (fun _ ho => ho) ?_ hp
  intro o _ e a x y he h hp
  exact Nat.le_of_succ_le (Performed.step he (h hp))

theorem inArm_keeps (ht : t.Works) {α : Type} {p : Drv α} (hp : p.Only (darkFoot t)) :
    suspending.protocol.Keeps (driverMachine.observe suspendLog) t (InArm t fun _ => True) p := by
  refine keepsDark_keeps (stable_inArm ht) (fun _ ho => ho.1) ?_ hp
  intro o ho e a x y he h
  exact ⟨⟨((World.exec_frame (watched_exec he).1).arcLock ho.2).trans h.lock, trivial⟩,
    fun hp => Nat.le_of_succ_le (Performed.step he (h.past hp))⟩

/-- Taking ArcLock. -/
theorem acquire_suspend (ht : t.Works) : suspending.protocol.Triple (driverMachine.observe suspendLog) t
    (Started t) (acquire .arc) fun _ => InArm t fun _ => True := by
  refine Triple.vis (I := fun _ => InArm t fun _ => True)
    (fun x y hr h hp => stable_performed ht 2 x y hr (h hp)) (fun _ _ _ => trivial) ?_
    fun _ => Keeps.pure (stable_inArm ht)
  intro x L e a y hx _ hinv ha he
  have hlock : y.1.arcLock = some t := by
    obtain ⟨w₁, hs, hw⟩ := World.exec_step (watched_exec he).1
    simp only [World.step, Option.ite_none_right_eq_some, Option.some.injEq, Prod.mk.injEq] at hs
    obtain ⟨-, -, rfl⟩ := hs
    rw [hw]
    rfl
  have hdark : (Op.acquire .arc).KeepsDark t := keepsDark_of_not_store fun _ hf => by cases hf
  exact ⟨keepsDark_step hdark hinv he, suspending_guar ha he,
    ⟨hlock, trivial⟩, fun hp => Nat.le_of_succ_le (Performed.step he (hx hp))⟩

theorem footRegions_suspend (ht : t.Works) : FootRegions (driverMachine.observe suspendLog)
    suspending.protocol t (darkFoot t) (Started t) (InArm t fun _ => True) where
  steady := Guarded.steady
  plain _ ho := darkFoot_of_plain ho
  quiet f hf := ⟨keepsDark_of_same fun c => by rw [hf c], id⟩
  unverify := by
    refine ⟨fun f hf => ?_, id⟩
    obtain rfl := Op.store.inj hf
    exact ⟨fun _ hset => absurd hset Bool.false_ne_true, fun _ => .inr fun _ => rfl⟩
  access _ _ := ⟨⟨keepsDark_of_not_store (fun _ hf => nomatch hf), id⟩,
    fun _ => ⟨keepsDark_of_not_store (fun _ hf => nomatch hf), id⟩⟩
  outside hp := by
    refine started_keeps ht (hp.mono fun o ho => ?_)
    rcases ho with ho | ho
    · exact ho.1
    · refine keepsDark_of_not_store fun f hf => ?_
      subst hf
      exact ho
  held hp := inArm_keeps ht hp
  acquire := acquire_suspend ht
  release := by
    refine Triple.weaken (P := InArm t fun _ => True) (Q := fun _ => Started t) ?_ (fun _ h => h) fun _ _ h => h
    refine Triple.vis (I := fun _ => Started t) (stable_inArm ht) (fun _ _ _ => trivial) ?_ fun _ =>
      Keeps.pure fun x y hr h hp => stable_performed ht 2 x y hr (h hp)
    intro x L e a y hx _ hinv ha he
    have hdark : (Op.release .arc).KeepsDark t := keepsDark_of_not_store fun _ hf => nomatch hf
    exact ⟨keepsDark_step hdark hinv he, suspending_guar ha he,
      fun hp => Nat.le_of_succ_le (Performed.step he (hx.past hp))⟩

theorem arcRegions_suspend (ht : t.Works) : ArcRegions (driverMachine.observe suspendLog)
    suspending.protocol t (Started t) (InArm t fun _ => True) :=
  (footRegions_suspend ht).arcRegions (armLocked_suspend ht)

theorem configScope_dark : ConfigScope (darkFoot .ioctl) where
  plain _ ho := darkFoot_of_plain ho
  setBusData _ _ _ := ⟨keepsDark_of_not_store (fun _ hf => nomatch hf), id⟩
  setFileGen _ _ := ⟨keepsDark_of_not_store (fun _ hf => nomatch hf), id⟩
  store f hf := by
    refine ⟨fun f' hf' => ?_, id⟩
    obtain rfl := Op.store.inj hf'
    exact ⟨fun c => (hf c).2, nofun⟩

theorem requestRegions_suspend (fileObject : Option FileObject) :
    RequestRegions (driverMachine.observe suspendLog) suspending.protocol fileObject (Started .ioctl)
      (Started .ioctl) (Started .ioctl) (InArm .ioctl fun _ => True) := by
  have hfoot := footRegions_suspend ioctl_works
  have harc := arcRegions_suspend ioctl_works
  have hdark : ∀ {o : Op}, (∀ f, o ≠ .store f) → ¬ o.movesLock .arc → darkFoot .ioctl o :=
    fun ho hl => ⟨keepsDark_of_not_store ho, hl⟩
  have hlocked : ∀ {s : Section}, darkFoot .ioctl (.locked s) := hdark (fun _ hf => nomatch hf) id
  refine hfoot.requestRegions (fun o ho => ?_) ⟨hdark (fun _ hf => nomatch hf) nofun,
    hdark (fun _ hf => nomatch hf) nofun⟩ (armLocked_suspend ioctl_works) ?_ ?_
  · cases o with
    | acquire l => exact .inr ho
    | release l => exact .inr ho
    | store => exact (ho : False).elim
    | _ => exact .inl (hdark (fun _ hf => nomatch hf) id)
  · refine harc.ioctlResetDevice (B := Started .ioctl) ?_ hfoot.acquire ?_
    · refine Triple.weaken (hfoot.keeps ((within_perform _).mpr hlocked)) (fun _ h => h) fun busy _ h => ?_
      cases busy <;> exact h
    · exact hfoot.held (armReset_only configScope_dark hlocked (fun _ => hdark (fun _ hf => nomatch hf) id) _)
  · exact hfoot.held (recoverReset_within configScope_dark.toBusScope.restoring
      (fun _ => configScope_dark.store _ fun _ => ⟨rfl, id⟩)
      (configScope_dark.store _ fun _ => ⟨rfl, id⟩) hfoot.access)

/-! ### The power callbacks -/

theorem performed_keeps (ht : t.Works) (n : Nat) {α : Type} {p : Drv α}
    (hp : p.Only fun o : Op => o.KeepsDark t) :
    suspending.protocol.Keeps (driverMachine.observe suspendLog) t (Performed t n) p := by
  refine keepsDark_keeps (stable_performed ht n) (fun _ ho => ho) ?_ hp
  intro o _ e a x y he h
  exact Nat.le_of_succ_le (Performed.step he h)

/-- One more operation is performed. -/
theorem performed_next (ht : t.Works) {o : Op} (ho : o.KeepsDark t) (n : Nat) :
    suspending.protocol.Triple (driverMachine.observe suspendLog) t (Performed t n) (op o)
      fun _ => Performed t (n + 1) := by
  refine Triple.vis (I := fun _ => Performed t (n + 1)) (stable_performed ht n) (fun _ _ _ => trivial) ?_
    fun _ => Keeps.pure (stable_performed ht (n + 1))
  intro x L e a y hx _ hinv ha he
  exact ⟨keepsDark_step ho hinv he, suspending_guar ha he, Performed.step he hx⟩

theorem exchangeScope_dark (ht : t.Works) : ExchangeScope fun o : Op => o.KeepsDark t where
  toMailScope := (footRegions_suspend ht).mailScope.mono fun _ ho => ho.1
  acquire := keepsDark_of_not_store fun _ hf => nomatch hf
  release := keepsDark_of_not_store fun _ hf => nomatch hf

/-- An exchange takes ArcLock and gives it up. -/
theorem arcMsgSendSync_performed (ht : t.Works) (msg : ArcMsg) :
    suspending.protocol.Triple (driverMachine.observe suspendLog) t (Performed t 0) (arcMsgSendSync msg)
      fun _ => Performed t 2 := by
  have hscope := exchangeScope_dark ht
  refine Triple.bind (p := acquire .arc) Guarded.steady (performed_next ht hscope.acquire 0) fun _ => ?_
  refine Triple.bind (p := arcSendLocked msg) Guarded.steady
    (performed_keeps ht 1 (arcSendLocked_within hscope.toMailScope msg)) fun _ => ?_
  refine Triple.bind (p := release .arc) Guarded.steady (performed_next ht hscope.release 1) fun _ => ?_
  exact Keeps.pure (stable_performed ht 2)

theorem arcPowerUp_performed (ht : t.Works) :
    suspending.protocol.Triple (driverMachine.observe suspendLog) t (Performed t 0) arcPowerUp
      fun _ => Performed t 2 := by
  have hscope := exchangeScope_dark ht
  have hsend : ∀ header, suspending.protocol.Triple (driverMachine.observe suspendLog) t (Performed t 0)
      (arcSendChecked header) fun _ => Performed t 2 := by
    intro header
    refine Triple.bind (p := arcMsgSendSync _) Guarded.steady (arcMsgSendSync_performed ht _) fun r => ?_
    cases r with
    | error => exact Keeps.pure (stable_performed ht 2)
    | ok msg => exact Keeps.ite (Keeps.pure (stable_performed ht 2)) (Keeps.pure (stable_performed ht 2))
  refine Triple.bind (p := arcSendChecked _) Guarded.steady (hsend _) fun _ => ?_
  exact Keeps.ite (Keeps.pure (stable_performed ht 2)) (performed_keeps ht 2 (arcSendChecked_within hscope _))

/-- The power callbacks, from their beginning. -/
theorem powerCallback_suspend (cb : PowerCallback) :
    suspending.protocol.Triple (driverMachine.observe suspendLog) .power (Performed .power 0) cb.code
      fun _ _ => True := by
  have ht : Tid.power.Works := .inr rfl
  have harc := arcRegions_suspend ht
  have hinit : suspending.protocol.Triple (driverMachine.observe suspendLog) .power (Performed .power 0)
      evtDeviceSelfManagedIoInit fun _ _ => True := by
    refine Triple.bind (p := arcPowerUp) Guarded.steady (arcPowerUp_performed ht) fun _ => ?_
    refine Triple.weaken (P := Started .power) (Q := fun _ => Started .power) ?_ (fun _ h _ => h) fun _ _ _ => trivial
    exact harc.bind harc.sysmemArm fun _ => harc.pure _
  cases cb with
  | init => exact hinit
  | restart => exact hinit
  | suspend =>
    have hscope := exchangeScope_dark ht
    refine Triple.weaken (performed_keeps ht 0 (p := evtDeviceSelfManagedIoSuspend) ?_) (fun _ h => h)
      fun _ _ _ => trivial
    have hunverify := (footRegions_suspend ht).unverify.1
    refine Within.bind (p := sysmemInvalidate) ⟨hscope.acquire, fun _ _ => ⟨hunverify, fun _ _ =>
      (within_perform _).mpr hscope.release⟩⟩ fun _ => arcPowerDown_within hscope

end Works

/-! ## Every run -/

/-- A thread that is not at work sets no flag either. -/
theorem aside_suspend {t : Tid} {p : Drv Unit} (hp : p.Only fun o : Op => o.KeepsDark t) :
    suspending.protocol.Keeps (driverMachine.observe suspendLog) t (fun _ => True) p :=
  keepsDark_keeps (Stable.true t) (fun _ ho => ho) (fun _ _ _ _ _ _ _ _ => trivial) hp

theorem begins_suspend {L : Tid → Prop} {t : Tid} {p : Drv Unit} {x y : World × Bool}
    (h : Begins L t p x.1 y.1) :
    suspending.protocol.Safe (driverMachine.observe suspendLog) t p (fun _ => suspending.protocol.post t) y := by
  have hdone : ∀ {u : Tid} {q : Drv Unit} {P : World × Bool → Prop} {Q : Unit → World × Bool → Prop},
      suspending.protocol.Triple (driverMachine.observe suspendLog) u P q Q → P y →
      suspending.protocol.Safe (driverMachine.observe suspendLog) u q (fun _ => suspending.protocol.post u) y :=
    fun hq hP => Protocol.Safe.mono (hq y hP) fun _ _ _ => trivial
  have hframe : ∀ {o : Op}, (∀ f, o = .store f → HardwareFrame f) → o.KeepsDark .hardware := by
    intro o ho f hf
    exact ⟨fun c => (ho f hf c).2, nofun⟩
  generalize y.1 = w' at h
  cases h with
  | ioctl r code p => exact hdone ((requestRegions_suspend r.fileObject).evtIoDeviceControl code) nofun
  | power cb p => exact hdone (powerCallback_suspend cb) (Nat.zero_le _)
  | prepare resources p =>
    have hprepare : (do let _ ← evtDevicePrepareHardware resources : Drv Unit).Only fun o : Op => o.KeepsDark .hardware := by
      refine ((evtDevicePrepareHardware_only resources).mono fun o ho => hframe fun f hf => ?_).bind fun _ => trivial
      subst hf
      exact ho
    exact hdone (aside_suspend hprepare) trivial
  | release p =>
    have hrelease : evtDeviceReleaseHardware.Only fun o : Op => o.KeepsDark .hardware := by
      refine evtDeviceReleaseHardware_only.mono fun o ho => hframe fun f hf => ?_
      subst hf
      exact ho
    exact hdone (aside_suspend hrelease) trivial
  | create fo p =>
    refine hdone (u := .create fo) (aside_suspend ((evtDeviceFileCreate_only fo).mono fun o ho => ?_)) trivial
    refine keepsDark_of_not_store fun f hf => ?_
    subst hf
    exact ho
  | cleanup fo p =>
    refine hdone (u := .cleanup fo) (aside_suspend ((evtFileCleanup_only fo).mono fun o ho => ?_)) trivial
    refine keepsDark_of_not_store fun f hf => ?_
    subst hf
    exact ho

theorem argued_suspend : suspending.Argued where
  still := rfl
  initial x hx := by
    obtain ⟨-, hawake⟩ := hx
    have hawake : x.2 = false := hawake
    intro hsuspended
    rw [show x.2 = true from hsuspended] at hawake
    cases hawake
  begins _ _ _ _ _ h := h
  ends _ _ _ _ _ h _ := h
  safe _ _ _ _ _ hb _ _ _ := begins_suspend hb

/-- While the device is suspended, no buffer is advertised. -/
theorem dark_while_suspended {c : WatchedConfig Bool} (h : Reach (driver.observe suspendLog) armsAwake c)
    (hs : c.world.2 = true) : c.world.1.ctx.sysmemVerified = false :=
  argued_suspend.reach h hs

/-- Suspend, up to where it gives up ArcLock. -/
def suspends : List Move := [.power .suspend 0, .ops .power (plainOps 3)]

theorem dark_while_suspended_after_arm :
    ∃ c : WatchedConfig Bool, Reach (driver.observe suspendLog) armsAwake c ∧ c.world.2 = true ∧
      c.world.1.ctx.sysmemStage = .verified ∧ c.world.1.ctx.sysmemVerified = false := by
  have hplay : (WatchedConfig.play suspendLog (fun t _ _ => t != .ioctl)
      ((armingRun ++ suspends).map .driver) (idle.watched false)).any (fun c =>
        c.world.2 && c.world.1.ctx.sysmemStage == .verified) = true := by
    decide +kernel
  have hawake : ∀ (t : Tid) (o : Op) (x : World × Bool), (t != .ioctl) = true → armsAwake t o x := by
    rintro t o x ht f rfl
    cases ht
  have hinitial : suspendLog.initial {} false := rfl
  obtain ⟨c, hreach, hend⟩ := WatchedConfig.exists_reach hawake hinitial hplay
  simp only [Bool.and_eq_true, beq_iff_eq] at hend
  obtain ⟨hsuspended, hstage⟩ := hend
  exact ⟨c, hreach, hsuspended, hstage, dark_while_suspended hreach hsuspended⟩

/-- A reset is armed and recovered from; Suspend falls in after the recovery; five power-ups reach
no firmware, and the arm that follows passes. -/
def rearmingRun : List Move :=
  cardArrives 0x10000000 ++ opens 2 2 ++ armsReset ++ [Move.ops .ioctl ([.count 4] ++ plainOps 2)] ++
    recoversReset ++ suspends ++
    [Move.ops .ioctl ((List.replicate 4 (deafExchange ++ plainOps 1)).flatten ++ deafExchange ++
      plainOps 6 ++ [.word 2] ++ plainOps 25 ++ echoes 0 ++ echoes 1 ++ echoes 2 ++ plainOps 10)]

/-- Suspend falls between the recovery of a POST_RESET and its arm, which then sets the flag. -/
theorem post_reset_arms_suspended :
    ∃ c : WatchedConfig Bool, Reach (driver.observe suspendLog) anyStep c ∧
      c.world.2 = true ∧ c.world.1.ctx.sysmemVerified = true := by
  have hplay : (WatchedConfig.play suspendLog (fun _ _ _ => true)
      (rearmingRun.map .driver)
      (idle.watched false)).any (fun c => c.world.2 && c.world.1.ctx.sysmemVerified) = true := by
    decide +kernel
  have hinitial : suspendLog.initial {} false := rfl
  obtain ⟨c, hreach, hend⟩ := WatchedConfig.exists_reach (fun _ _ _ _ => trivial) hinitial hplay
  exact ⟨c, hreach, Bool.and_eq_true_iff.mp hend⟩

end TtWind
