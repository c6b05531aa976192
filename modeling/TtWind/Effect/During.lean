import TtWind.Effect.Follow
import TtWind.Effect.Rely

/-!
# In the middle of a call

`During t` is a run in which thread `t` neither ends its call nor begins one: the others step
as they like. What `t` has done meanwhile leads its program on, and an assertion about the
world and the state of an automaton that reads `t`'s operations is carried along if `t`'s own
steps and those of the others carry it (`During.state`). Where a protocol is sound, what it keeps
stable is carried along by the others (`Protocol.Sound.during`).
-/

set_option autoImplicit false

namespace TtWind.Effect

variable {S : Sig} {T E W σ : Type} [DecidableEq T]

/-- A run within one call of thread `t`. -/
def During (Y : System S T E W) (allow : T → S.Op → W → Prop) (t : T) :
    Config S T W → Config S T W → Prop :=
  Relation.ReflTransGen fun c c' => Step Y allow c c' ∧ c'.live t

/-- Thread `t` performs `o`, answered by `x`. -/
inductive Own (Y : System S T E W) (allow : T → S.Op → W → Prop) (t : T) (o : S.Op) (x : S.Ans o) :
    Config S T W → Config S T W → Prop where
  | exec {c : Config S T W} {k : S.Ans o → Prog S Unit} {e : E} {w : W} :
      c.pool t = some (.vis o k) → allow t o c.world → Y.exec t o e c.world = some (x, w) →
      Own Y allow t o x c (c.set w t (some (k x)))

variable {Y : System S T E W} {allow : T → S.Op → W → Prop} {t : T} {c c' : Config S T W}

theorem Own.step {o : S.Op} {x : S.Ans o} (h : Own Y allow t o x c c') : Step Y allow c c' := by
  cases h with
  | exec hp ha he => exact .exec hp ha he

/-- A step of the thread's own is within its call. -/
theorem Own.during {o : S.Op} {x : S.Ans o} (h : Own Y allow t o x c c') : During Y allow t c c' := by
  refine .single ⟨h.step, ?_⟩
  cases h with
  | @exec k e w hp ha he =>
    rw [Config.live, c.set_pool_self w t]
    intro h
    cases h

theorem During.run (h : During Y allow t c c') : Run Y allow c c' := by
  induction h with
  | refl => exact .refl
  | tail _ hs ih => exact ih.tail hs.1

/-- An assertion about the automaton's state and the world that every step within a call
carries along. -/
structure Upheld (Y : System S T E W) (allow : T → S.Op → W → Prop) (t : T)
    (next : ((o : S.Op) × S.Ans o) → σ → σ) (J : σ → W → Prop) : Prop where
  own : ∀ {c c' : Config S T W} {o : S.Op} {x : S.Ans o} {s : σ}, Reach Y allow c →
    Own Y allow t o x c c' → J s c.world → J (next ⟨o, x⟩ s) c'.world
  begins : ∀ {c : Config S T W} {u : T} {p : Prog S Unit} {w : W} {s : σ}, u ≠ t →
    Y.begins c.live u p c.world w → J s c.world → J s w
  other : ∀ {c c' : Config S T W} {u : T} {o : S.Op} {x : S.Ans o} {s : σ}, Reach Y allow c →
    c.live t → u ≠ t → Own Y allow u o x c c' → J s c.world → J s c'.world
  ends : ∀ {u : T} {w w' : W} {s : σ}, u ≠ t → Y.ends u w w' → J s w → J s w'
  env : ∀ {w w' : W} {s : σ}, Y.env w w' → J s w → J s w'

/-- Within a call, the thread's program goes on where its operations have led, and what is
carried along holds. -/
theorem During.state {next : ((o : S.Op) × S.Ans o) → σ → σ} {J : σ → W → Prop}
    (hJ : Upheld Y allow t next J) (hc : Reach Y allow c) (h : During Y allow t c c')
    {p : Prog S Unit} (hp : c.pool t = some p) {s : σ} (hs : J s c.world) :
    ∃ evs q, c'.pool t = some q ∧ p.Leads evs q ∧ J (evs.foldr next s) c'.world := by
  induction h with
  | refl => exact ⟨[], p, hp, .start, hs⟩
  | @tail c₁ c₂ hrun hstep ih =>
    obtain ⟨evs, q, hq, hleads, hj⟩ := ih
    have hreach : Reach Y allow c₁ := hc.run (During.run hrun)
    have hlive : c₁.live t := by
      rw [Config.live, hq]
      intro h
      cases h
    obtain ⟨hstep, hlive'⟩ := hstep
    cases hstep with
    | @begins u p' w hnone hb =>
      have hu : u ≠ t := by
        rintro rfl
        exact hlive hnone
      exact ⟨evs, q, (c₁.set_pool_ne w _ hu.symm).trans hq, hleads, hJ.begins hu hb hj⟩
    | @exec u o k e x w hpool ha he =>
      have hown : Own Y allow u o x c₁ (c₁.set w u (some (k x))) := .exec hpool ha he
      by_cases hu : u = t
      · subst hu
        obtain rfl := Option.some.inj (hq.symm.trans hpool)
        exact ⟨⟨o, x⟩ :: evs, k x, c₁.set_pool_self w u _, .step x hleads, hJ.own hreach hown hj⟩
      · have hsame := (c₁.set_pool_ne w (some (k x)) (Ne.symm hu)).trans hq
        exact ⟨evs, q, hsame, hleads, hJ.other hreach hlive hu hown hj⟩
    | @ends u w hpool he =>
      have hu : u ≠ t := by
        rintro rfl
        exact hlive' (c₁.set_pool_self w u none)
      exact ⟨evs, q, (c₁.set_pool_ne w _ hu.symm).trans hq, hleads, hJ.ends hu he hj⟩
    | env he => exact ⟨evs, q, hq, hleads, hJ.env he hj⟩

/-- A step within a call is the thread's own, or leaves its program. -/
theorem Step.own_or_still (hs : Step Y allow c c') (hlive : c.live t) (hlive' : c'.live t) :
    (∃ (o : S.Op) (x : S.Ans o), Own Y allow t o x c c') ∨ c'.pool t = c.pool t := by
  cases hs with
  | @begins u p w hnone hb =>
    have hu : t ≠ u := by
      rintro rfl
      exact hlive hnone
    exact .inr (c.set_pool_ne w _ hu)
  | @exec u o k e x w hpool ha he =>
    by_cases hu : t = u
    · subst hu
      exact .inl ⟨o, x, .exec hpool ha he⟩
    · exact .inr (c.set_pool_ne w _ hu)
  | @ends u w hpool he =>
    have hu : t ≠ u := by
      rintro rfl
      exact hlive' (c.set_pool_self w t none)
    exact .inr (c.set_pool_ne w _ hu)
  | env he => exact .inr rfl

/-- Whatever a thread has performed within a call, it performed at some moment of it. -/
theorem During.history (h : During Y allow t c c') {p : Prog S Unit} (hp : c.pool t = some p) :
    ∃ evs q, c'.pool t = some q ∧ p.Leads evs q ∧ ∀ (o : S.Op) (x : S.Ans o), ⟨o, x⟩ ∈ evs →
      ∃ c₁ c₂, During Y allow t c c₁ ∧ Own Y allow t o x c₁ c₂ ∧ During Y allow t c₂ c' := by
  induction h with
  | refl => exact ⟨[], p, hp, .start, fun _ _ hev => by cases hev⟩
  | @tail c₁ c₂ hrun hstep ih =>
    obtain ⟨evs, q, hq, hleads, hmoments⟩ := ih
    have hlater : ∀ (o : S.Op) (x : S.Ans o), ⟨o, x⟩ ∈ evs →
        ∃ d₁ d₂, During Y allow t c d₁ ∧ Own Y allow t o x d₁ d₂ ∧ During Y allow t d₂ c₂ := by
      intro o x hev
      obtain ⟨d₁, d₂, hbefore, hown, hafter⟩ := hmoments o x hev
      exact ⟨d₁, d₂, hbefore, hown, hafter.tail hstep⟩
    have hlive : c₁.live t := by
      rw [Config.live, hq]
      intro h
      cases h
    rcases hstep.1.own_or_still hlive hstep.2 with ⟨o, x, hown⟩ | hstill
    · cases hown with
      | @exec k e w hpool ha he =>
        obtain rfl := Option.some.inj (hq.symm.trans hpool)
        refine ⟨⟨o, x⟩ :: evs, k x, c₁.set_pool_self w t _, .step x hleads, fun o' x' hev => ?_⟩
        rcases List.mem_cons.mp hev with heq | hev
        · cases heq
          exact ⟨c₁, _, hrun, .exec hpool ha he, .refl⟩
        · exact hlater o' x' hev
    · exact ⟨evs, q, hstill.trans hq, hleads, hlater⟩

/-! ## Under a protocol -/

theorem During.restrict {allow' : T → S.Op → W → Prop}
    (h : ∀ (c : Config S T W) (u : T) (o : S.Op) (k : S.Ans o → Prog S Unit), Reach Y allow c →
      c.pool u = some (.vis o k) → allow u o c.world → allow' u o c.world)
    (hc : Reach Y allow c) (hrun : During Y allow t c c') : During Y allow' t c c' := by
  induction hrun with
  | refl => exact .refl
  | @tail c₁ c₂ hrun hs ih =>
    have hreach : Reach Y allow c₁ := hc.run (During.run hrun)
    exact ih.tail ⟨hs.1.restrict fun u o k => h c₁ u o k hreach, hs.2⟩

namespace Protocol.Sound

variable {R : Protocol S T W}

/-- A step within a call is the thread's own, or within what the thread relies on. -/
theorem own_or_rely (hS : R.Sound Y) (hc : R.Good Y c) (hn : R.known c.live c.world) (hlive : c.live t)
    (hs : Step Y R.allow c c') (hlive' : c'.live t) :
    (∃ (o : S.Op) (x : S.Ans o), Own Y R.allow t o x c c') ∨ R.rely t c.world c'.world ∧ c'.pool t = c.pool t := by
  cases hs with
  | @begins u p w hnone hb =>
    have hu : t ≠ u := by
      rintro rfl
      exact hlive hnone
    have hnl : ¬ c.live u := fun hl => hl hnone
    exact .inr ⟨(hS.begins c.live u p c.world w hb hnl hc.inv hn).2.1 t hlive, c.set_pool_ne w _ hu⟩
  | @exec u o k e x w hpool ha he =>
    by_cases hu : t = u
    · subst hu
      exact .inl ⟨o, x, .exec hpool ha he⟩
    · have hul := live_of_pool hpool
      obtain ⟨-, hstep⟩ := hc.safe u _ hpool c.world c.live (hS.refl u _) hul hc.inv hn ha
      obtain ⟨-, hguar, -⟩ := hstep e x w he
      exact .inr ⟨hS.compat c.live u t _ _ hul hlive (Ne.symm hu) hc.inv hn hguar, c.set_pool_ne w _ hu⟩
  | @ends u w hpool he =>
    have hu : t ≠ u := by
      rintro rfl
      exact hlive' (c.set_pool_self w t none)
    have hpost := hc.safe u _ hpool c.world (hS.refl u _)
    obtain ⟨-, hrely⟩ := hS.ends c.live u _ _ he (live_of_pool hpool) hc.inv hn hpost
    exact .inr ⟨hrely t hlive, c.set_pool_ne w _ hu⟩
  | @env w he => exact .inr ⟨(hS.env c.live _ _ he hc.inv hn).2 t hlive, rfl⟩

/-- Within a call, what no step of the others falsifies and the thread's own steps carry along holds of where
its operations have led. -/
theorem during (hS : R.Sound Y) {next : ((o : S.Op) × S.Ans o) → σ → σ} {J : σ → W → Prop}
    (hstable : ∀ s, R.Stable t (J s))
    (hown : ∀ {c c' : Config S T W} {o : S.Op} {x : S.Ans o} {s : σ}, Reach Y R.allow c →
      Own Y R.allow t o x c c' → J s c.world → J (next ⟨o, x⟩ s) c'.world)
    (hc : Reach Y R.allow c) (h : During Y R.allow t c c') {p : Prog S Unit} (hp : c.pool t = some p) {s : σ}
    (hs : J s c.world) (hn : ∀ c, Reach Y R.allow c → R.known c.live c.world := by intros; trivial) :
    ∃ evs q, c'.pool t = some q ∧ p.Leads evs q ∧ J (evs.foldr next s) c'.world := by
  induction h with
  | refl => exact ⟨[], p, hp, .start, hs⟩
  | @tail c₁ c₂ hrun hstep ih =>
    obtain ⟨evs, q, hq, hleads, hj⟩ := ih
    have hreach : Reach Y R.allow c₁ := hc.run (During.run hrun)
    have hlive : c₁.live t := live_of_pool hq
    rcases hS.own_or_rely (hS.good hreach hn) (hn _ hreach) hlive hstep.1 hstep.2 with ⟨o, x, hown'⟩ | ⟨hrely, hpool⟩
    · have hnext := hown hreach hown' hj
      cases hown' with
      | @exec k e w hpool ha he =>
        obtain rfl := Option.some.inj (hq.symm.trans hpool)
        exact ⟨⟨o, x⟩ :: evs, k x, c₁.set_pool_self w t _, .step x hleads, hnext⟩
    · exact ⟨evs, q, hpool.trans hq, hleads, hstable _ _ _ hrely hj⟩

end Protocol.Sound

end TtWind.Effect
