import TtWind.Laws.Calls
import TtWind.Laws.Discipline

/-!
# What ArcLock guards

Part of the device context, and of what a log has seen of the run, is written only under
ArcLock or by a hardware callback. `Guarded` names such a view, with an invariant of it and of
who holds the lock; `protocol` is the rely–guarantee argument it comes with. A thread that
holds the lock finds the view as it left it (`stable_owned`), whoever steps meanwhile; and an
operation elsewhere is no concern of the others as long as it leaves the view
(`guar_of_exec`).
-/

set_option autoImplicit false

namespace TtWind

open TtWind.Effect TtWind.Effect.Prog TtWind.Effect.Protocol

/-- A lock changes hands only by what its holder, or its taker, does. -/
theorem World.exec_holder_iff {t u : Tid} {o : Op} {e : Choice} {w w' : World} {a : o.Ans} {l : Lock}
    (h : w.exec t o e = some (a, w')) (hu : u ≠ t) :
    w'.holder l = some u ↔ w.holder l = some u := by
  refine ⟨fun hl => ?_, World.exec_holder h hu⟩
  have hf := World.exec_frame h
  by_cases hm : o.movesLock l
  · obtain ⟨w₁, hs, rfl⟩ := World.exec_step h
    cases o with
    | acquire l' =>
      obtain rfl : l' = l := hm
      simp only [World.step, Option.ite_none_right_eq_some, Option.some.injEq, Prod.mk.injEq] at hs
      obtain ⟨-, -, rfl⟩ := hs
      have hl : some t = some u := by cases l' <;> exact hl
      exact absurd (Option.some.inj hl).symm hu
    | release l' =>
      obtain rfl : l' = l := hm
      simp only [World.step, Option.ite_none_right_eq_some, Option.some.injEq, Prod.mk.injEq] at hs
      obtain ⟨-, -, rfl⟩ := hs
      have hl : none = some u := by cases l' <;> exact hl
      cases hl
    | _ => exact hm.elim
  · cases l with
    | arc => exact (hf.arcLock hm).symm.trans hl
    | state => exact (hf.stateLock hm).symm.trans hl

/-- A view of the watched driver that is written under ArcLock or by a hardware callback: the
invariant it keeps, by who is live and who holds the lock, and what a thread leaves at its end. -/
structure Guarded (G V : Type) where
  log : Observer DriverSig Tid World G
  view : DeviceContext → G → V
  allow : Tid → Op → World × G → Prop
  inv : (Tid → Prop) → Option Tid → V → Prop
  post : Tid → Option Tid → V → Prop := fun _ _ _ => True

namespace Guarded

variable {G V : Type} (A : Guarded G V)

/-- The view of a world. -/
def of (x : World × G) : V := A.view x.1.ctx x.2

/-- What thread `t` counts on to stay while others step. -/
structure Kept (t : Tid) (x y : World × G) : Prop where
  view : x.1.arcLock = some t ∨ t = .hardware → A.of y = A.of x
  card : y.1.ctx.card = x.1.ctx.card
  lock : y.1.arcLock = some t ↔ x.1.arcLock = some t
  hist : y.1.hist t = x.1.hist t

/-- The argument for the view. -/
def protocol : Protocol DriverSig Tid (World × G) where
  allow t o x := (Disciplined t o x.1 ∧ Placed t o x.1) ∧ A.allow t o x
  inv L x := A.inv L x.1.arcLock (A.of x)
  known L x := MmioInv L x.1
  rely t x y := t.Drives → A.Kept t x y
  guar t x y := ∀ u, u ≠ t → u.Drives → ¬ t.Excludes u → A.Kept u x y
  post t x := A.post t x.1.arcLock (A.of x)

variable {A}

theorem Kept.refl (t : Tid) (x : World × G) : A.Kept t x x := ⟨fun _ => rfl, rfl, Iff.rfl, rfl⟩

theorem Kept.trans {t : Tid} {x y z : World × G} (h₁ : A.Kept t x y) (h₂ : A.Kept t y z) :
    A.Kept t x z where
  view h := (h₂.view (h.imp_left h₁.lock.mpr)).trans (h₁.view h)
  card := h₂.card.trans h₁.card
  lock := h₂.lock.trans h₁.lock
  hist := h₂.hist.trans h₁.hist

/-- Where nothing watched changes, nothing a thread counts on does. -/
theorem Kept.of_same {t : Tid} {x y : World × G} (hctx : y.1.ctx = x.1.ctx)
    (hlock : y.1.arcLock = x.1.arcLock) (hhist : y.1.hist t = x.1.hist t) (hseen : y.2 = x.2) :
    A.Kept t x y := by
  refine ⟨fun _ => ?_, by rw [hctx], by rw [hlock], hhist⟩
  rw [of, of, hctx, hseen]

theorem steady : A.protocol.Steady where
  refl t x _ := .refl t x
  trans _ _ _ _ h₁ h₂ ht := (h₁ ht).trans (h₂ ht)

/-! ## Steps -/

/-- Whose steps may write the view: the holder of ArcLock at work, and a hardware callback. -/
def Owns (t : Tid) (w : World) : Prop := (t.Works ∧ w.arcLock = some t) ∨ t = .hardware

variable {t : Tid} {o : Op} {e : Choice} {x y : World × G} {a : o.Ans}

/-- A step is within the guarantee if it leaves the view, or is its owner's. -/
theorem guar_of_exec (ha : A.protocol.allow t o x)
    (he : (driverMachine.observe A.log).exec t o e x = some (a, y))
    (hview : ¬ Owns t x.1 → A.of y = A.of x) : A.protocol.guar t x y := by
  obtain ⟨hexec, -, -⟩ := watched_exec he
  have hf := World.exec_frame hexec
  intro u hu hdrives hexcl
  have hdrive : t.Drives → t ≠ .hardware ∧ u ≠ .hardware := by
    intro ht
    constructor
    · rintro rfl
      exact hexcl (.inl ⟨rfl, hdrives⟩)
    · rintro rfl
      exact hexcl (.inr ⟨rfl, ht⟩)
  have hhw : t ≠ .hardware := by
    rintro rfl
    exact (hdrive trivial).1 rfl
  refine ⟨fun hown => hview fun hmine => ?_, ?_, World.exec_holder_iff (l := .arc) hexec hu, ?_⟩
  · rcases hmine with ⟨hworks, hlock⟩ | rfl
    · rcases hown with hlock' | rfl
      · exact hu (Option.some.inj (hlock'.symm.trans hlock))
      · exact (hdrive hworks.drives).2 rfl
    · exact hhw rfl
  · rw [hf.ctx]
    cases o with
    | store f => exact (ha.1.2.same hhw).1
    | locked s =>
      rw [Op.effect, Section.run_frame x.1.ctx s]
      rfl
    | _ => rfl
  · rw [hf.hist, Function.update_of_ne hu]

/-- The operation leaves the view: it stores nothing that is seen there, the log makes nothing
of it, and the sections do not touch it. -/
def Spares (A : Guarded G V) (o : Op) : Prop :=
  (∀ f, o = .store f → ∀ c g, A.view (f c) g = A.view c g) ∧
    (∀ s, o = .locked s → ∀ c g, A.view (s.run c).2 g = A.view c g) ∧
    ∀ t a w c g, A.view c (A.log.note t o a w g) = A.view c g

theorem of_spares (ho : A.Spares o) (he : (driverMachine.observe A.log).exec t o e x = some (a, y)) :
    A.of y = A.of x := by
  obtain ⟨hexec, -, hnote⟩ := watched_exec he
  obtain ⟨hstore, hlocked, hlog⟩ := ho
  rw [of, of, hnote, hlog, (World.exec_frame hexec).ctx]
  cases o with
  | store f => exact hstore f rfl _ _
  | locked s => exact hlocked s rfl _ _
  | _ => rfl

/-! ## Under the lock -/

section Owned

variable {α : Type} {Φ : V → Prop} {Q : α → World × G → Prop}

/-- The thread holds ArcLock, and `Φ` holds of the view. -/
structure Held (A : Guarded G V) (t : Tid) (Φ : V → Prop) (x : World × G) : Prop where
  lock : x.1.arcLock = some t
  state : Φ (A.of x)

theorem stable_held (ht : t.Works) : A.protocol.Stable t (A.Held t Φ) := by
  intro x y hr h
  have hkept : A.Kept t x y := hr ht.drives
  refine ⟨hkept.lock.mpr h.lock, ?_⟩
  rw [hkept.view (.inl h.lock)]
  exact h.state

/-- One operation under the lock. -/
theorem held_vis {k : o.Ans → Drv α} {Ψ : o.Ans → V → Prop} (ht : t.Works) (hlock : ¬ o.movesLock .arc)
    (hstep : ∀ (x : World × G) L e a (y : World × G), A.Held t Φ x → L t →
      A.inv L (some t) (A.of x) → A.allow t o x →
      (driverMachine.observe A.log).exec t o e x = some (a, y) →
      Ψ a (A.of y) ∧ A.inv L (some t) (A.of y))
    (hk : ∀ a, A.protocol.Triple (driverMachine.observe A.log) t (A.Held t (Ψ a)) (k a) Q) :
    A.protocol.Triple (driverMachine.observe A.log) t (A.Held t Φ) (.vis o k) Q := by
  refine Triple.vis (I := fun a => A.Held t (Ψ a)) (stable_held ht) (fun _ _ _ => trivial) ?_ hk
  intro x L e a y hx hl hinv ha he
  have hinv : A.inv L x.1.arcLock (A.of x) := hinv
  rw [hx.lock] at hinv
  obtain ⟨hstate, hinv'⟩ := hstep x L e a y hx hl hinv ha.2 he
  have hkeep : y.1.arcLock = some t :=
    ((World.exec_frame (watched_exec he).1).arcLock hlock).trans hx.lock
  refine ⟨?_, guar_of_exec ha he fun hn => absurd (.inl ⟨ht, hx.lock⟩) hn, hkeep, hstate⟩
  show A.inv L y.1.arcLock (A.of y)
  rwa [hkeep]

/-- A store under the lock. -/
theorem held_store {f : DeviceContext → DeviceContext} {k : Unit → Drv α} {Ψ : V → Prop} (ht : t.Works)
    (hlog : ∀ w c g, A.view c (A.log.note t (.store f) () w g) = A.view c g)
    (hstep : ∀ L c g, L t → Φ (A.view c g) → A.inv L (some t) (A.view c g) →
      Ψ (A.view (f c) g) ∧ A.inv L (some t) (A.view (f c) g))
    (hk : A.protocol.Triple (driverMachine.observe A.log) t (A.Held t Ψ) (k ()) Q) :
    A.protocol.Triple (driverMachine.observe A.log) t (A.Held t Φ) (.vis (.store f) k) Q := by
  refine held_vis (Ψ := fun _ => Ψ) ht id (fun x L e a y hx hl hinv _ he => ?_) fun _ => hk
  obtain ⟨hexec, -, hnote⟩ := watched_exec he
  have hctx : y.1.ctx = f x.1.ctx := (World.exec_frame hexec).ctx
  rw [of, hctx, hnote, hlog]
  exact hstep L _ _ hl hx.state hinv

/-- An operation under the lock that leaves the view. -/
theorem held_spares {k : o.Ans → Drv α} (ht : t.Works) (ho : A.Spares o) (hlock : ¬ o.movesLock .arc)
    (hk : ∀ a, A.protocol.Triple (driverMachine.observe A.log) t (A.Held t Φ) (k a) Q) :
    A.protocol.Triple (driverMachine.observe A.log) t (A.Held t Φ) (.vis o k) Q := by
  refine held_vis (Ψ := fun _ => Φ) ht hlock (fun x L e a y hx _ hinv _ he => ?_) hk
  rw [of_spares ho he]
  exact ⟨hx.state, hinv⟩

/-- A program under the lock that leaves the view. -/
theorem held_keeps (ht : t.Works) {p : Drv α} (hp : p.Only fun o : Op => A.Spares o ∧ ¬ o.movesLock .arc) :
    A.protocol.Keeps (driverMachine.observe A.log) t (A.Held t Φ) p := by
  induction p with
  | pure a => exact Keeps.pure (stable_held ht)
  | vis o k ih => exact held_spares ht hp.1.1 hp.1.2 fun a => ih a (hp.2 a trivial)

end Owned

/-! ## The whole system -/

/-- What there is to show of a view. -/
structure Argued (A : Guarded G V) : Prop where
  still : A.log.drift = fun _ _ => none
  initial : ∀ x, (driver.observe A.log).initial x → A.inv (fun _ => False) x.1.arcLock (A.of x)
  begins : ∀ L t l v, ¬ L t → A.inv L l v → A.inv (fun u => u = t ∨ L u) l v
  ends : ∀ L t l v, L t → A.inv L l v → A.post t l v → A.inv (fun u => u ≠ t ∧ L u) l v
  safe : ∀ L t p (x y : World × G), Begins L t p x.1 y.1 → y.2 = x.2 → ¬ L t →
    A.inv L x.1.arcLock (A.of x) →
      A.protocol.Safe (driverMachine.observe A.log) t p (fun _ => A.protocol.post t) y

theorem Argued.sound (h : A.Argued) : A.protocol.Sound (driver.observe A.log) where
  toSteady := steady
  initial := h.initial
  compat L t t' x y hl hl' hne _ hknown hg hd := by
    refine hg t' (Ne.symm hne) hd ?_
    rintro (⟨rfl, -⟩ | ⟨rfl, hdt⟩)
    · have halone := hknown.alone hl
      cases t' with
      | ioctl => exact halone.1 hl'
      | power => exact halone.2 hl'
      | hardware => exact hne rfl
      | _ => exact hd
    · have halone := hknown.alone hl'
      cases t with
      | ioctl => exact halone.1 hl
      | power => exact halone.2 hl
      | hardware => exact hne rfl
      | _ => exact hdt
  begins L t p x y hb hnl hinv _ := by
    obtain ⟨hb, hseen⟩ := hb
    have hlock : y.1.arcLock = x.1.arcLock := by
      generalize y.1 = w' at hb
      cases hb <;> rfl
    have hview : A.of y = A.of x := by rw [of, of, begins_ctx hb, hseen]
    refine ⟨?_, fun t' ht' _ => ?_, h.safe L t p x y hb hseen hnl hinv⟩
    · show A.inv _ y.1.arcLock (A.of y)
      rw [hlock, hview]
      exact h.begins L t _ _ hnl hinv
    · have hne : t' ≠ t := fun heq => hnl (heq ▸ ht')
      exact Kept.of_same (begins_ctx hb) hlock (begins_hist hb hne) hseen
  ends L t x y he hl hinv _ hpost := by
    obtain ⟨he, hseen⟩ := he
    have hleave : y.1 = x.1.leave t := he
    have hsame : y.1.ctx = x.1.ctx ∧ y.1.arcLock = x.1.arcLock ∧ y.1.hist = x.1.hist := by
      rw [hleave]
      cases t <;> exact ⟨rfl, rfl, rfl⟩
    obtain ⟨hctx, hlock, hhist⟩ := hsame
    have hview : A.of y = A.of x := by rw [of, of, hctx, hseen]
    refine ⟨?_, fun t' _ _ => Kept.of_same hctx hlock (by rw [hhist]) hseen⟩
    show A.inv _ y.1.arcLock (A.of y)
    rw [hlock, hview]
    exact h.ends L t _ _ hl hinv hpost
  env L x y he hinv _ := by
    have hsame : y.1.ctx = x.1.ctx ∧ y.1.arcLock = x.1.arcLock ∧ y.1.hist = x.1.hist ∧ y.2 = x.2 := by
      rcases he with ⟨he, hseen⟩ | ⟨-, n, hdrift⟩
      · refine ⟨environment_ctx he, ?_, ?_, hseen⟩ <;> generalize y.1 = w' at he <;> cases he <;> rfl
      · rw [h.still] at hdrift
        cases hdrift
    obtain ⟨hctx, hlock, hhist, hseen⟩ := hsame
    have hview : A.of y = A.of x := by rw [of, of, hctx, hseen]
    refine ⟨?_, fun t' _ _ => Kept.of_same hctx hlock (by rw [hhist]) hseen⟩
    show A.inv _ y.1.arcLock (A.of y)
    rw [hlock, hview]
    exact hinv

/-- Every operation about to be performed is where it may be. -/
theorem placed (c : WatchedConfig G) (t : Tid) (o : Op) (k : o.Ans → Drv Unit)
    (hc : Reach (driver.observe A.log) A.allow c) (hp : c.pool t = some (.vis o k)) (ha : A.allow t o c.world) :
    A.protocol.allow t o c.world := ⟨mmio_sound.about (reach_unwatched hc) hp trivial, ha⟩

/-- What is argued of a view holds in every reachable configuration of the watched driver. -/
theorem Argued.reach (h : A.Argued) {c : WatchedConfig G} (hc : Reach (driver.observe A.log) A.allow c) :
    A.inv c.live c.world.1.arcLock (A.of c.world) :=
  (h.sound.good (hc.restrict placed) fun _ hr => reach_mmioInv (reach_unwatched hr)).inv

/-- Within a call, what no other thread falsifies and the thread's own steps carry along holds of where its
operations have led. -/
theorem Argued.during (h : A.Argued) {σ : Type} {t : Tid} {next : Event → σ → σ} {J : σ → World × G → Prop}
    (hstable : ∀ s, A.protocol.Stable t (J s))
    (hown : ∀ {o : Op} {a : o.Ans} {e : Choice} {x y : World × G} {s : σ},
      (driverMachine.observe A.log).exec t o e x = some (a, y) → J s x → J (next ⟨o, a⟩ s) y)
    {c c' : WatchedConfig G} (hc : Reach (driver.observe A.log) A.allow c)
    (hrun : During (driver.observe A.log) A.allow t c c') {p : Drv Unit} (hp : c.pool t = some p) {s : σ}
    (hs : J s c.world) : ∃ evs q, c'.pool t = some q ∧ p.Leads evs q ∧ J (evs.foldr next s) c'.world := by
  refine h.sound.during hstable (fun _ hstep hx => ?_) (hc.restrict placed) (hrun.restrict placed hc) hp hs
    fun _ hr => reach_mmioInv (reach_unwatched hr)
  cases hstep with
  | exec _ _ he => exact hown he hx

end Guarded

end TtWind
