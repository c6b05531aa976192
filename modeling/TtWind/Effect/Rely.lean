import TtWind.Effect.Threads

/-!
# Rely–guarantee for interleaved effect programs

A `Protocol` for a system says what a thread may assume of the steps of the
others (`rely`), what its own steps keep (`guar`), what holds when it performs an
operation (`pre`), what holds when its program ends (`post`), and an invariant of
the world and the set of live threads (`inv`). `Safe t p Q w` reads: from world
`w`, whatever the others do within `rely t`, every operation of `p` meets `pre`
and `guar` and keeps `inv`, and a returned value meets `Q`.

`Sound` collects the side conditions: a step within one live thread's guarantee
is within every other live thread's rely, a thread begins safe, and beginnings,
endings and environment moves keep the invariant. `Sound.good` is the rule:
every reachable configuration satisfies the invariant, and every live thread is
safe in it.

A protocol may build on facts settled before: `known` is an invariant of the reachable
configurations shown elsewhere, which the proof of this one uses and need not keep.

`Triple t P p Q` is the form in which programs are specified: from any world
with `P`, `p` is safe with postcondition `Q`. `Keeps t P p` is the frequent case
of a program that only has to preserve `P`.
-/

set_option autoImplicit false

namespace TtWind.Effect

variable {S : Sig} {T E W : Type} {α β : Type}

/-- The data of a rely–guarantee argument. -/
structure Protocol (S : Sig) (T W : Type) where
  allow : T → S.Op → W → Prop := anyStep
  inv : (T → Prop) → W → Prop
  known : (T → Prop) → W → Prop := fun _ _ => True
  rely : T → W → W → Prop
  guar : T → W → W → Prop
  pre : T → S.Op → W → Prop := fun _ _ _ => True
  post : T → W → Prop := fun _ _ => True

namespace Protocol

variable (M : Machine S T E W) (R : Protocol S T W)

/-- The program keeps its side of the protocol from this world on. -/
def Safe (t : T) : Prog S α → (α → W → Prop) → W → Prop
  | .pure a, Q, w => ∀ w₁, R.rely t w w₁ → Q a w₁
  | .vis o k, Q, w => ∀ w₁ L, R.rely t w w₁ → L t → R.inv L w₁ → R.known L w₁ → R.allow t o w₁ →
      R.pre t o w₁ ∧ ∀ e x w₂, M.exec t o e w₁ = some (x, w₂) →
        R.inv L w₂ ∧ R.guar t w₁ w₂ ∧ Safe t (k x) Q w₂

/-- From every world with `P`, the program is safe and its answer meets `Q`. -/
def Triple (t : T) (P : W → Prop) (p : Prog S α) (Q : α → W → Prop) : Prop :=
  ∀ w, P w → R.Safe M t p Q w

/-- The program is safe and preserves `P`. -/
def Keeps (t : T) (P : W → Prop) (p : Prog S α) : Prop := R.Triple M t P p fun _ => P

/-- No step of the other threads falsifies `P`. -/
def Stable (t : T) (P : W → Prop) : Prop := ∀ w w₁, R.rely t w w₁ → P w → P w₁

/-- The rely relations are preorders. -/
structure Steady : Prop where
  refl : ∀ t w, R.rely t w w
  trans : ∀ t u v w, R.rely t u v → R.rely t v w → R.rely t u w

variable {M R}

theorem Stable.and {t : T} {P Q : W → Prop} (hP : R.Stable t P) (hQ : R.Stable t Q) :
    R.Stable t fun w => P w ∧ Q w :=
  fun w w₁ hr h => ⟨hP w w₁ hr h.1, hQ w w₁ hr h.2⟩

theorem Stable.true (t : T) : R.Stable t fun _ => True := fun _ _ _ _ => trivial

theorem Stable.const {t : T} {p : Prop} : R.Stable t fun _ => p := fun _ _ _ h => h

/-! ## Safety is stable, monotone and compositional -/

theorem Safe.rely (hR : R.Steady) {t : T} {p : Prog S α} {Q : α → W → Prop} {w w' : W}
    (h : R.Safe M t p Q w) (hr : R.rely t w w') : R.Safe M t p Q w' := by
  cases p with
  | pure a => exact fun w₁ h₁ => h w₁ (hR.trans t _ _ _ hr h₁)
  | vis o k => exact fun w₁ L h₁ => h w₁ L (hR.trans t _ _ _ hr h₁)

theorem Safe.mono {t : T} {p : Prog S α} {Q Q' : α → W → Prop} {w : W}
    (h : R.Safe M t p Q w) (hQ : ∀ a w, Q a w → Q' a w) : R.Safe M t p Q' w := by
  induction p generalizing w with
  | pure a => exact fun w₁ h₁ => hQ a w₁ (h w₁ h₁)
  | vis o k ih =>
    intro w₁ L h₁ ht hi hn ha
    obtain ⟨hpre, hstep⟩ := h w₁ L h₁ ht hi hn ha
    refine ⟨hpre, fun e x w₂ he => ?_⟩
    obtain ⟨hinv, hg, hs⟩ := hstep e x w₂ he
    exact ⟨hinv, hg, ih x hs⟩

theorem Safe.bind (hR : R.Steady) {t : T} {p : Prog S α} {f : α → Prog S β}
    {Q : β → W → Prop} {w : W} (h : R.Safe M t p (fun a => R.Safe M t (f a) Q) w) :
    R.Safe M t (p >>= f) Q w := by
  induction p generalizing w with
  | pure a => exact h w (hR.refl t w)
  | vis o k ih =>
    intro w₁ L h₁ ht hi hn ha
    obtain ⟨hpre, hstep⟩ := h w₁ L h₁ ht hi hn ha
    refine ⟨hpre, fun e x w₂ he => ?_⟩
    obtain ⟨hinv, hg, hs⟩ := hstep e x w₂ he
    exact ⟨hinv, hg, ih x hs⟩

/-! ## Rules for triples -/

theorem Triple.pure {t : T} {P : W → Prop} {Q : α → W → Prop} {a : α} (hP : R.Stable t P)
    (h : ∀ w, P w → Q a w) : R.Triple M t P (Pure.pure a : Prog S α) Q :=
  fun w hw w₁ hr => h w₁ (hP w w₁ hr hw)

theorem Triple.bind (hR : R.Steady) {t : T} {P : W → Prop} {Q : α → W → Prop}
    {Q' : β → W → Prop} {p : Prog S α} {f : α → Prog S β} (hp : R.Triple M t P p Q)
    (hf : ∀ a, R.Triple M t (Q a) (f a) Q') : R.Triple M t P (p >>= f) Q' :=
  fun w hw => Safe.bind hR ((hp w hw).mono fun a => hf a)

theorem Triple.weaken {t : T} {P P' : W → Prop} {Q Q' : α → W → Prop} {p : Prog S α}
    (h : R.Triple M t P p Q) (hP : ∀ w, P' w → P w) (hQ : ∀ a w, Q a w → Q' a w) :
    R.Triple M t P' p Q' :=
  fun w hw => (h w (hP w hw)).mono hQ

theorem Triple.ite {t : T} {P : W → Prop} {Q : α → W → Prop} {c : Prop} [Decidable c]
    {p q : Prog S α} (hp : c → R.Triple M t P p Q) (hq : ¬ c → R.Triple M t P q Q) :
    R.Triple M t P (if c then p else q) Q := by
  split
  · exact hp ‹_›
  · exact hq ‹_›

/-- A precondition that also implies a world-independent fact may be assumed. -/
theorem Triple.assume {t : T} {P : W → Prop} {Q : α → W → Prop} {p : Prog S α} {φ : Prop}
    (hφ : ∀ w, P w → φ) (h : φ → R.Triple M t P p Q) : R.Triple M t P p Q :=
  fun w hw => h (hφ w hw) w hw

/-- One operation: the precondition is stable, gives `pre`, and each step it allows keeps
the invariant and the guarantee and establishes the precondition of the rest. -/
theorem Triple.vis_known {t : T} {P : W → Prop} {o : S.Op} {k : S.Ans o → Prog S α}
    {I : S.Ans o → W → Prop} {Q : α → W → Prop} (hP : R.Stable t P)
    (hpre : ∀ w L, P w → L t → R.inv L w → R.known L w → R.allow t o w → R.pre t o w)
    (hstep : ∀ w L e x w₂, P w → L t → R.inv L w → R.known L w → R.allow t o w →
      M.exec t o e w = some (x, w₂) → R.inv L w₂ ∧ R.guar t w w₂ ∧ I x w₂)
    (hk : ∀ x, R.Triple M t (I x) (k x) Q) : R.Triple M t P (.vis o k) Q := by
  intro w hw w₁ L hr ht hi hn ha
  have hw₁ := hP w w₁ hr hw
  refine ⟨hpre w₁ L hw₁ ht hi hn ha, fun e x w₂ he => ?_⟩
  obtain ⟨hinv, hg, hq⟩ := hstep w₁ L e x w₂ hw₁ ht hi hn ha he
  exact ⟨hinv, hg, hk x w₂ hq⟩

/-- The same, for a step that needs nothing known. -/
theorem Triple.vis {t : T} {P : W → Prop} {o : S.Op} {k : S.Ans o → Prog S α}
    {I : S.Ans o → W → Prop} {Q : α → W → Prop} (hP : R.Stable t P)
    (hpre : ∀ w, P w → R.allow t o w → R.pre t o w)
    (hstep : ∀ w L e x w₂, P w → L t → R.inv L w → R.allow t o w →
      M.exec t o e w = some (x, w₂) → R.inv L w₂ ∧ R.guar t w w₂ ∧ I x w₂)
    (hk : ∀ x, R.Triple M t (I x) (k x) Q) : R.Triple M t P (.vis o k) Q :=
  Triple.vis_known hP (fun w _ hw _ _ _ => hpre w hw)
    (fun w L e x w₂ hw ht hi _ => hstep w L e x w₂ hw ht hi) hk

theorem Keeps.pure {t : T} {P : W → Prop} {a : α} (hP : R.Stable t P) :
    R.Keeps M t P (Pure.pure a : Prog S α) := Triple.pure hP fun _ h => h

theorem Keeps.bind (hR : R.Steady) {t : T} {P : W → Prop} {p : Prog S α} {f : α → Prog S β}
    (hp : R.Keeps M t P p) (hf : ∀ a, R.Keeps M t P (f a)) : R.Keeps M t P (p >>= f) :=
  Triple.bind hR hp hf

theorem Keeps.ite {t : T} {P : W → Prop} {c : Prop} [Decidable c] {p q : Prog S α}
    (hp : R.Keeps M t P p) (hq : R.Keeps M t P q) : R.Keeps M t P (if c then p else q) :=
  Triple.ite (fun _ => hp) fun _ => hq

/-- A program within a footprint whose operations preserve `P` and whose answers
satisfy `J` preserves `P`. -/
theorem Keeps.of_within_known {t : T} {P : W → Prop} {J : (o : S.Op) → S.Ans o → Prop}
    {K : S.Op → Prop} (hP : R.Stable t P)
    (hpre : ∀ o, K o → ∀ w L, P w → L t → R.inv L w → R.known L w → R.allow t o w → R.pre t o w)
    (hstep : ∀ o, K o → ∀ w L e x w₂, P w → L t → R.inv L w → R.known L w → R.allow t o w →
      M.exec t o e w = some (x, w₂) → R.inv L w₂ ∧ R.guar t w w₂ ∧ P w₂ ∧ J o x)
    {p : Prog S α} (hp : p.Within J K) : R.Keeps M t P p := by
  induction p with
  | pure a => exact Keeps.pure hP
  | vis o k ih =>
    refine Triple.vis_known (I := fun x w => P w ∧ J o x) hP (hpre o hp.1) (hstep o hp.1) fun x => ?_
    intro w hw
    exact ih x (hp.2 x hw.2) w hw.1

theorem Keeps.of_within {t : T} {P : W → Prop} {J : (o : S.Op) → S.Ans o → Prop}
    {K : S.Op → Prop} (hP : R.Stable t P)
    (hpre : ∀ o, K o → ∀ w, P w → R.allow t o w → R.pre t o w)
    (hstep : ∀ o, K o → ∀ w L e x w₂, P w → L t → R.inv L w → R.allow t o w →
      M.exec t o e w = some (x, w₂) → R.inv L w₂ ∧ R.guar t w w₂ ∧ P w₂ ∧ J o x)
    {p : Prog S α} (hp : p.Within J K) : R.Keeps M t P p :=
  Keeps.of_within_known hP (fun o ho w _ hw _ _ _ => hpre o ho w hw)
    (fun o ho w L e x w₂ hw ht hi _ => hstep o ho w L e x w₂ hw ht hi) hp

end Protocol

/-! ## Soundness -/

variable [DecidableEq T]

/-- The side conditions of a protocol for a system. -/
structure Protocol.Sound (Y : System S T E W) (R : Protocol S T W) : Prop extends R.Steady where
  initial : ∀ w, Y.initial w → R.inv (fun _ => False) w
  /-- A live thread's step is within what every other live thread relies on. -/
  compat : ∀ L t t' w w', L t → L t' → t ≠ t' → R.inv L w → R.known L w → R.guar t w w' →
    R.rely t' w w'
  begins : ∀ L t p w w', Y.begins L t p w w' → ¬ L t → R.inv L w → R.known L w →
    R.inv (fun u => u = t ∨ L u) w' ∧ (∀ t', L t' → R.rely t' w w') ∧
      R.Safe Y.toMachine t p (fun _ => R.post t) w'
  ends : ∀ L t w w', Y.ends t w w' → L t → R.inv L w → R.known L w → R.post t w →
    R.inv (fun u => u ≠ t ∧ L u) w' ∧ ∀ t', L t' → R.rely t' w w'
  env : ∀ L w w', Y.env w w' → R.inv L w → R.known L w →
    R.inv L w' ∧ ∀ t', L t' → R.rely t' w w'

/-- A configuration in which the invariant holds and every live thread is safe. -/
structure Protocol.Good (Y : System S T E W) (R : Protocol S T W) (c : Config S T W) : Prop where
  inv : R.inv c.live c.world
  safe : ∀ t p, c.pool t = some p → R.Safe Y.toMachine t p (fun _ => R.post t) c.world

namespace Protocol.Sound

variable {Y : System S T E W} {R : Protocol S T W}

omit [DecidableEq T] in
theorem live_of_pool {c : Config S T W} {t : T} {p : Prog S Unit} (h : c.pool t = some p) :
    c.live t := by simp [Config.live, h]

/-- The live threads after thread `t` began or went on. -/
theorem live_set_some (c : Config S T W) (w : W) (t : T) (p : Prog S Unit) :
    (c.set w t (some p)).live = fun u => u = t ∨ c.live u := by
  funext u
  by_cases hu : u = t
  · subst hu; simp [Config.live]
  · rw [c.set_live_ne w _ hu]; simp [hu]

/-- The live threads after thread `t` ended. -/
theorem live_set_none (c : Config S T W) (w : W) (t : T) :
    (c.set w t none).live = fun u => u ≠ t ∧ c.live u := by
  funext u
  by_cases hu : u = t
  · subst hu; simp [Config.live]
  · rw [c.set_live_ne w _ hu]; simp [hu]

/-- The programs of the other threads stay safe across a change of the world within
their rely. -/
theorem others_safe (hR : R.Steady) {c : Config S T W} (hc : R.Good Y c) {t u : T} {w : W}
    {r : Option (Prog S Unit)} {q : Prog S Unit} (hu : u ≠ t)
    (hrely : c.live u → R.rely u c.world w) (hq : (c.set w t r).pool u = some q) :
    R.Safe Y.toMachine u q (fun _ => R.post u) w := by
  rw [c.set_pool_ne w r hu] at hq
  exact (hc.safe u q hq).rely hR (hrely (live_of_pool hq))

/-- A step from a good configuration leads to a good one. -/
theorem good_step (hS : R.Sound Y) {c c' : Config S T W} (hc : R.Good Y c)
    (hn : R.known c.live c.world) (hs : Step Y R.allow c c') : R.Good Y c' := by
  cases hs with
  | @begins t p w hnone hb =>
    have hnl : ¬ c.live t := by simpa [Config.live] using hnone
    obtain ⟨hinv, hrely, hsafe⟩ := hS.begins c.live t p c.world w hb hnl hc.inv hn
    refine ⟨live_set_some c w t p ▸ hinv, fun u q hq => ?_⟩
    by_cases hu : u = t
    · subst hu
      rw [Config.set_pool_self, Option.some.injEq] at hq
      exact hq ▸ hsafe
    · exact others_safe hS.toSteady hc hu (hrely u) hq
  | @exec t o k e x w hpool hallow he =>
    have hlive := live_of_pool hpool
    obtain ⟨-, hstep⟩ := hc.safe t _ hpool c.world c.live (hS.refl t _) hlive hc.inv hn hallow
    obtain ⟨hinv, hguar, hsafe⟩ := hstep e x w he
    refine ⟨?_, fun u q hq => ?_⟩
    · have hsame : (c.set w t (some (k x))).live = c.live := by
        rw [live_set_some]
        funext u
        exact propext ⟨fun h => h.elim (fun h => h ▸ hlive) id, Or.inr⟩
      exact hsame ▸ hinv
    · by_cases hu : u = t
      · subst hu
        rw [Config.set_pool_self, Option.some.injEq] at hq
        exact hq ▸ hsafe
      · exact others_safe hS.toSteady hc hu
          (fun hl => hS.compat c.live t u _ _ hlive hl (Ne.symm hu) hc.inv hn hguar) hq
  | @ends t w hpool he =>
    have hlive := live_of_pool hpool
    have hpost := hc.safe t _ hpool c.world (hS.refl t _)
    obtain ⟨hinv, hrely⟩ := hS.ends c.live t _ _ he hlive hc.inv hn hpost
    refine ⟨live_set_none c w t ▸ hinv, fun u q hq => ?_⟩
    by_cases hu : u = t
    · subst hu
      rw [Config.set_pool_self] at hq
      cases hq
    · exact others_safe hS.toSteady hc hu (hrely u) hq
  | @env w he =>
    obtain ⟨hinv, hrely⟩ := hS.env c.live _ _ he hc.inv hn
    exact ⟨hinv, fun u q hq => (hc.safe u q hq).rely hS.toSteady (hrely u (live_of_pool hq))⟩

/-- Every reachable configuration is good, what the protocol takes as known being so. -/
theorem good (hS : R.Sound Y) {c : Config S T W} (h : Reach Y R.allow c)
    (hn : ∀ c, Reach Y R.allow c → R.known c.live c.world := by intros; trivial) :
    R.Good Y c := by
  obtain ⟨w, hw, hr⟩ := h
  induction hr with
  | refl =>
    refine ⟨?_, fun t p hp => by simp at hp⟩
    refine (congrArg (fun L => R.inv L w) (funext fun u => propext ?_)).mp (hS.initial w hw)
    simp [Config.live]
  | tail hr hs ih => exact hS.good_step ih (hn _ ⟨w, hw, hr⟩) hs

/-- What a protocol says about the operation a live thread is about to perform. -/
theorem about (hS : R.Sound Y) {c : Config S T W} (h : Reach Y R.allow c) {t : T} {o : S.Op}
    {k : S.Ans o → Prog S Unit} (hp : c.pool t = some (.vis o k)) (ha : R.allow t o c.world)
    (hn : ∀ c, Reach Y R.allow c → R.known c.live c.world := by intros; trivial) :
    R.pre t o c.world := by
  have hc := hS.good h hn
  exact (hc.safe t _ hp c.world c.live (hS.refl t _) (live_of_pool hp) hc.inv (hn c h) ha).1

end Protocol.Sound

end TtWind.Effect
