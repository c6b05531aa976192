import TtWind.Laws.Calls
import TtWind.Laws.Discipline

/-!
# What the requests have done so far

Config space is written, and the restriction raised and lifted, by the requests of the
dispatcher alone. An `Account` reads the operations of the request at hand with an automaton, and
says what its state shows of the device context and of what a log has seen of the run. It holds
in every configuration if every operation that the automaton allows the request carries it on,
and the steps of the others do.
-/

set_option autoImplicit false

namespace TtWind

open TtWind.Effect TtWind.Effect.Prog

/-- Operations that leave the reset to others: they write no config space, and store what the code
under ArcLock records at most. -/
def Op.SparesReset : Op → Prop
  | .setBusData _ _ => False
  | .store f => ArcFrame f
  | _ => True

theorem deviceFoot_sparesReset {l : Lock} {o : Op} (h : deviceFoot l o) : o.SparesReset := by
  cases o with
  | store f => exact h
  | setBusData => exact (h : False).elim
  | _ => trivial

theorem handleFoot_sparesReset {fileObject : Option FileObject} {o : Op} (h : handleFoot fileObject o) :
    o.SparesReset := by
  cases o with
  | store f => exact (h : False).elim
  | setBusData => exact (h : False).elim
  | _ => trivial

theorem sparesReset_of_plain {o : Op} (h : o.plain) : o.SparesReset :=
  deviceFoot_sparesReset (deviceFoot_of_plain (l := .arc) h)

section Follow

variable {α σ : Type} {allows : σ → Op → Prop} {next : Event → σ → σ}

/-- The code follows the automaton from every state on. -/
abbrev Complies (allows : σ → Op → Prop) (next : Event → σ → σ) (p : Drv α) : Prop :=
  ∀ s, p.Follows (S := DriverSig) allows next (fun _ _ => True) s

/-- What is allowed in every state may be done in any. -/
theorem complies_of_only {K : Op → Prop} (hK : ∀ s o, K o → allows s o) {p : Drv α} (hp : p.Only K) :
    Complies allows next p := by
  induction p with
  | pure a => exact fun _ => trivial
  | vis o k ih => exact fun s => ⟨hK s o hp.1, fun x => ih x (hp.2 x trivial) _⟩

theorem Complies.bind {β : Type} {p : Drv α} {f : α → Drv β} (hp : Complies allows next p)
    (hf : ∀ a, Complies allows next (f a)) : Complies allows next (p >>= f) :=
  fun s => (hp s).bind fun s a _ => hf a s

theorem Complies.ite {c : Prop} [Decidable c] {p q : Drv α} (hp : Complies allows next p)
    (hq : Complies allows next q) : Complies allows next (if c then p else q) :=
  fun s => Follows.ite (fun _ => hp s) fun _ => hq s

/-- A request follows an automaton that has a say in the two resets only, if these do. -/
theorem evtIoDeviceControl_complies (hspares : ∀ s o, o.SparesReset → allows s o)
    (harm : ∀ fileObject, Complies allows next (armReset fileObject)) (hrecover : Complies allows next recoverReset)
    (fileObject : Option FileObject) (code : Ioctl) :
    Complies allows next (evtIoDeviceControl fileObject code) := by
  have hplain : ∀ {α : Type} {p : Drv α}, p.Only Op.plain → Complies allows next p := fun hp =>
    complies_of_only (fun s o ho => hspares s o (sparesReset_of_plain ho)) hp
  have hone : ∀ {o : Op}, o.SparesReset → Complies allows next (op o) := fun ho =>
    complies_of_only hspares ((within_perform _).mpr ho)
  have hpure : ∀ {α : Type} (a : α), Complies allows next (Pure.pure a : Drv α) := fun _ _ => trivial
  have hfield : ∀ off, Complies allows next (inU32 off) := fun _ => hplain ⟨trivial, fun _ _ => trivial⟩
  have hpower : ∀ {α : Type} {p : Drv α}, p.Only powerFoot → Complies allows next p := fun hp =>
    complies_of_only hspares (hp.mono fun _ ho => deviceFoot_sparesReset (arcFoot_of_powerFoot ho))
  have hreset : Complies allows next (ioctlResetDevice fileObject) := by
    refine (hone (o := .inputBuffer 8) trivial).bind fun _ => (hpure _).ite ?_
    refine (hfield 0).bind fun _ => (hfield 4).bind fun _ => (hpure _).ite ?_
    refine (hone (o := .load) trivial).bind fun _ => (hpure _).ite ?_
    refine (hone (o := .locked .anyMapping) trivial).bind fun _ => (hpure _).ite ?_
    refine (hone (o := .acquire .arc) trivial).bind fun _ => (harm fileObject).bind fun _ => ?_
    exact (hone (o := .release .arc) trivial).bind fun _ => hpure _
  have hpost : Complies allows next ioctlPostReset := by
    refine (hone (o := .inputBuffer 8) trivial).bind fun _ => (hpure _).ite ?_
    refine (hfield 0).bind fun _ => (hfield 4).bind fun _ => (hpure _).ite ?_
    refine (hone (o := .load) trivial).bind fun _ => (hpure _).ite ?_
    refine (hone (o := .acquire .arc) trivial).bind fun _ => hrecover.bind fun ⟨status, recovered⟩ => ?_
    refine (hone (o := .release .arc) trivial).bind fun _ => (hpure _).ite ?_
    exact (hpower (powerUpRetry_only _)).bind fun _ => (hpower sysmemArm_only).bind fun _ => hpure _
  have hhandler : Complies allows next (ioctlHandler fileObject code) := by
    by_cases hresets : code = .resetDevice ∨ code = .postReset
    · rcases hresets with rfl | rfl
      · exact hreset.bind fun _ => hpure _
      · exact hpost.bind fun _ => hpure _
    · obtain ⟨hreset, hpost⟩ := not_or.mp hresets
      refine complies_of_only hspares (ioctlHandler_within (fun _ => handleFoot_sparesReset)
        (fun _ => deviceFoot_sparesReset) (fun h => absurd h hpost) hreset fun _ _ => deviceFoot_sparesReset)
  refine (hplain (isStale_only trivial (fun _ => trivial) _)).bind fun _ => (hone (o := .complete _ _) trivial).ite ?_
  refine (hone (o := .load) trivial).bind fun _ => (hone (o := .complete _ _) trivial).ite ?_
  exact hhandler.bind fun _ => hone (o := .complete _ _) trivial

end Follow

/-! ## Accounts -/

/-- An automaton over what the request at hand has done, and what its state shows of the device
context and of what has been seen. -/
structure Account (G σ : Type) where
  log : Observer DriverSig Tid World G
  allow : Tid → Op → World × G → Prop
  start : σ
  next : Event → σ → σ
  allows : σ → Op → Prop
  inv : σ → DeviceContext → G → Prop

namespace Account

variable {G σ : Type} (A : Account G σ)

/-- Where the request at hand, or the last one, has led. -/
def state (w : World) : σ := (w.hist .ioctl).foldr A.next A.start

/-- What there is to show of an account. -/
structure Argued : Prop where
  initial : ∀ x, (driver.observe A.log).initial x → A.inv A.start x.1.ctx x.2
  again : ∀ s c g, A.inv s c g → A.inv A.start c g
  follows : ∀ fileObject code,
    (evtIoDeviceControl fileObject code).Follows (S := DriverSig) A.allows A.next (fun _ _ => True) A.start
  own : ∀ {s : σ} {o : Op} {a : o.Ans} {e : Choice} {x y : World × G}, A.allows s o → A.allow .ioctl o x →
    (driverMachine.observe A.log).exec .ioctl o e x = some (a, y) → A.inv s x.1.ctx x.2 →
      A.inv (A.next ⟨o, a⟩ s) y.1.ctx y.2
  other : ∀ {s : σ} {t : Tid} {o : Op} {a : o.Ans} {e : Choice} {x y : World × G}, t ≠ .ioctl → Placed t o x.1 →
    (driverMachine.observe A.log).exec t o e x = some (a, y) → A.inv s x.1.ctx x.2 → A.inv s y.1.ctx y.2
  drift : ∀ {s : σ} {c : DeviceContext} {g g' : G} {n : Nat}, A.log.drift n g = some g' → A.inv s c g → A.inv s c g'

variable {A} {c : WatchedConfig G}

/-- What the request at hand is about to do is allowed. -/
theorem Argued.allows (h : A.Argued) (hc : Reach (driver.observe A.log) A.allow c) {o : Op} {k : o.Ans → Drv Unit}
    (hp : c.pool .ioctl = some (.vis o k)) : A.allows (A.state c.world.1) o := by
  obtain ⟨p, ⟨code, rfl⟩, hleads⟩ := reach_inCall (reach_unwatched hc) hp
  exact (hleads.follows (h.follows _ code)).1

/-- The account holds in every reachable configuration. -/
theorem Argued.reach (h : A.Argued) (hc : Reach (driver.observe A.log) A.allow c) :
    A.inv (A.state c.world.1) c.world.1.ctx c.world.2 := by
  obtain ⟨x, hx, hr⟩ := hc
  induction hr with
  | refl =>
    have hstart : A.state x.1 = A.start := by
      obtain ⟨⟨buffer, hbuffer⟩, -⟩ := hx
      rw [state, hbuffer]
      rfl
    show A.inv (A.state x.1) x.1.ctx x.2
    rw [hstart]
    exact h.initial x hx
  | @tail c₁ c₂ hrun hs ih =>
    have hc₁ : Reach (driver.observe A.log) A.allow c₁ := ⟨x, hx, hrun⟩
    cases hs with
    | @begins t p y hnone hb =>
      obtain ⟨hb, hseen⟩ := hb
      show A.inv (A.state y.1) y.1.ctx y.2
      rw [begins_ctx hb, hseen]
      by_cases ht : t = .ioctl
      · subst ht
        have hstart : A.state y.1 = A.start := by rw [state, begins_hist_self hb, List.foldr_nil]
        rw [hstart]
        exact h.again _ _ _ ih
      · have hsame : A.state y.1 = A.state c₁.world.1 := by rw [state, begins_hist hb (Ne.symm ht), state]
        rw [hsame]
        exact ih
    | @exec t o k e a y hp ha he =>
      show A.inv (A.state y.1) y.1.ctx y.2
      have hhist := (World.exec_frame (watched_exec he).1).hist
      by_cases ht : t = .ioctl
      · subst ht
        have hnext : A.state y.1 = A.next ⟨o, a⟩ (A.state c₁.world.1) := by
          rw [state, hhist, Function.update_self]
          rfl
        rw [hnext]
        exact h.own (h.allows hc₁ hp) ha he ih
      · have hsame : A.state y.1 = A.state c₁.world.1 := by
          rw [state, hhist, Function.update_of_ne (Ne.symm ht)]
          rfl
        rw [hsame]
        exact h.other ht (mmio_sound.about (reach_unwatched hc₁) hp trivial).2 he ih
    | @ends t y hp he =>
      obtain ⟨he, hseen⟩ := he
      have hleave : y.1 = c₁.world.1.leave t := he
      have hhist : (c₁.world.1.leave t).hist = c₁.world.1.hist := by cases t <;> rfl
      show A.inv (A.state y.1) y.1.ctx y.2
      rw [hleave, hseen, World.leave_ctx, state, hhist]
      exact ih
    | @env y he =>
      show A.inv (A.state y.1) y.1.ctx y.2
      rcases he with ⟨he, hseen⟩ | ⟨hsame, n, hdrift⟩
      · have hhist : y.1.hist = c₁.world.1.hist := by
          generalize y.1 = w' at he
          cases he <;> rfl
        rw [environment_ctx he, hseen, state, hhist]
        exact ih
      · rw [hsame]
        exact h.drift hdrift ih

end Account

end TtWind
