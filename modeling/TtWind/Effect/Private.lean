import TtWind.Effect.Threads

/-!
# Views that one thread changes

A view of the world that only the operations of one thread change needs no argument about the
others. `Sole` is what that thread's code is checked against: from a view, each of its
operations keeps an invariant of the view, and what it returns meets a postcondition of it.
`Private.reach` is the rule: if every call of the thread takes an idle view to an idle one, the
view is idle whenever the thread is not at work, in every reachable configuration.
-/

set_option autoImplicit false

namespace TtWind.Effect

variable {S : Sig} {T E W V : Type} {α β : Type}

/-- From view `v` the program keeps `I`, and what it returns meets `Q`. -/
def Sole (M : Machine S T E W) (t : T) (view : W → V) (I : V → Prop) :
    Prog S α → (α → V → Prop) → V → Prop
  | .pure a, Q, v => Q a v
  | .vis o k, Q, v => ∀ e x w w', view w = v → M.exec t o e w = some (x, w') →
      I (view w') ∧ Sole M t view I (k x) Q (view w')

namespace Sole

variable {M : Machine S T E W} {t : T} {view : W → V} {I : V → Prop} {v : V}

theorem pure {a : α} {Q : α → V → Prop} (h : Q a v) :
    Sole M t view I (Pure.pure a : Prog S α) Q v := h

theorem mono {p : Prog S α} {Q Q' : α → V → Prop} (h : Sole M t view I p Q v)
    (hQ : ∀ a v, Q a v → Q' a v) : Sole M t view I p Q' v := by
  induction p generalizing v with
  | pure a => exact hQ a v h
  | vis o k ih =>
    intro e x w w' hw he
    obtain ⟨hi, hk⟩ := h e x w w' hw he
    exact ⟨hi, ih x hk⟩

theorem bind {p : Prog S α} {f : α → Prog S β} {Q : α → V → Prop} {Q' : β → V → Prop}
    (hp : Sole M t view I p Q v) (hf : ∀ a v, Q a v → Sole M t view I (f a) Q' v) :
    Sole M t view I (p >>= f) Q' v := by
  induction p generalizing v with
  | pure a => exact hf a v hp
  | vis o k ih =>
    intro e x w w' hw he
    obtain ⟨hi, hk⟩ := hp e x w w' hw he
    exact ⟨hi, ih x hk⟩

theorem ite {c : Prop} [Decidable c] {p q : Prog S α} {Q : α → V → Prop}
    (hp : c → Sole M t view I p Q v) (hq : ¬ c → Sole M t view I q Q v) :
    Sole M t view I (if c then p else q) Q v := by
  split
  · exact hp ‹_›
  · exact hq ‹_›

/-- Operations that leave the view. -/
theorem of_only {K : S.Op → Prop} {p : Prog S α} (hp : p.Only K)
    (hK : ∀ {o e x w w'}, K o → M.exec t o e w = some (x, w') → view w' = view w) (hv : I v) :
    Sole M t view I p (fun _ v' => v' = v) v := by
  induction p with
  | pure a => exact rfl
  | vis o k ih =>
    intro e x w w' hw he
    have hsame : view w' = v := (hK hp.1 he).trans hw
    rw [hsame]
    exact ⟨hv, ih x (hp.2 x trivial)⟩

end Sole

variable [DecidableEq T]

/-- A view that only thread `t` changes: every other thread's operations are of footprint `K`,
which leaves it, and each call of `t` takes an idle view to an idle one. -/
structure Private (Y : System S T E W) (t : T) (view : W → V) (K : S.Op → Prop) (I Idle : V → Prop) :
    Prop where
  initial : ∀ w, Y.initial w → Idle (view w)
  idle : ∀ v, Idle v → I v
  only : ∀ {L u p w w'}, Y.begins L u p w w' → u ≠ t → p.Only K ∧ view w' = view w
  leaves : ∀ {u o e x w w'}, K o → Y.exec u o e w = some (x, w') → view w' = view w
  call : ∀ {L p w w'}, Y.begins L t p w w' → Idle (view w) →
    I (view w') ∧ Sole Y.toMachine t view I p (fun _ => Idle) (view w')
  ends : ∀ {u w w'}, Y.ends u w w' → view w' = view w
  env : ∀ {w w'}, Y.env w w' → view w' = view w

/-- What holds of a configuration: the view is as the thread's code wants it, and the others
keep to their footprint. -/
structure Private.Settled (M : Machine S T E W) (t : T) (view : W → V) (K : S.Op → Prop)
    (I Idle : V → Prop) (c : Config S T W) : Prop where
  inv : I (view c.world)
  idle : c.pool t = none → Idle (view c.world)
  busy : ∀ p, c.pool t = some p → Sole M t view I p (fun _ => Idle) (view c.world)
  others : ∀ u p, u ≠ t → c.pool u = some p → p.Only K

variable {Y : System S T E W} {t : T} {view : W → V} {K : S.Op → Prop} {I Idle : V → Prop}

omit [DecidableEq T] in
/-- Where the view and the thread's own program stay, so does what holds of them. -/
theorem Private.Settled.congr {c c' : Config S T W} (h : Private.Settled Y.toMachine t view K I Idle c)
    (hview : view c'.world = view c.world) (hpool : c'.pool t = c.pool t)
    (hothers : ∀ u p, u ≠ t → c'.pool u = some p → p.Only K) :
    Private.Settled Y.toMachine t view K I Idle c' := by
  refine ⟨?_, ?_, ?_, hothers⟩
  · rw [hview]
    exact h.inv
  · rw [hview, hpool]
    exact h.idle
  · rw [hview, hpool]
    exact h.busy

theorem Private.step (h : Private Y t view K I Idle) {allow : T → S.Op → W → Prop}
    {c c' : Config S T W} (hc : Private.Settled Y.toMachine t view K I Idle c) (hs : Step Y allow c c') :
    Private.Settled Y.toMachine t view K I Idle c' := by
  have hothers : ∀ {u : T} {w : W} {q : Option (Prog S Unit)}, (∀ p, q = some p → u ≠ t → p.Only K) →
      ∀ u' p, u' ≠ t → (c.set w u q).pool u' = some p → p.Only K := by
    intro u w q hq u' p hu' hp
    by_cases hu : u' = u
    · subst hu
      rw [Config.set_pool_self] at hp
      exact hq p hp hu'
    · rw [c.set_pool_ne w q hu] at hp
      exact hc.others u' p hu' hp
  cases hs with
  | @begins u p w hnone hb =>
    by_cases hu : u = t
    · subst hu
      obtain ⟨hinv, hsole⟩ := h.call hb (hc.idle hnone)
      refine ⟨hinv, ?_, ?_, hothers fun _ _ hne => absurd rfl hne⟩
      · intro hn
        rw [Config.set_pool_self] at hn
        cases hn
      · intro q hq
        rw [Config.set_pool_self, Option.some.injEq] at hq
        exact hq ▸ hsole
    · obtain ⟨honly, hview⟩ := h.only hb hu
      refine hc.congr hview (c.set_pool_ne w _ (Ne.symm hu)) (hothers ?_)
      rintro q hq -
      cases hq
      exact honly
  | @exec u o k e x w hpool ha he =>
    by_cases hu : u = t
    · subst hu
      obtain ⟨hinv, hsole⟩ := hc.busy _ hpool e x c.world w rfl he
      refine ⟨hinv, ?_, ?_, hothers fun _ _ hne => absurd rfl hne⟩
      · intro hn
        rw [Config.set_pool_self] at hn
        cases hn
      · intro q hq
        rw [Config.set_pool_self, Option.some.injEq] at hq
        exact hq ▸ hsole
    · have honly := hc.others u _ hu hpool
      refine hc.congr (h.leaves honly.1 he) (c.set_pool_ne w _ (Ne.symm hu)) (hothers ?_)
      rintro q hq -
      cases hq
      exact honly.2 x trivial
  | @ends u w hpool he =>
    have hview := h.ends he
    by_cases hu : u = t
    · subst hu
      have hidle : Idle (view w) := by
        rw [hview]
        exact hc.busy _ hpool
      refine ⟨h.idle _ hidle, fun _ => hidle, ?_, hothers fun _ hq => by cases hq⟩
      intro q hq
      rw [Config.set_pool_self] at hq
      cases hq
    · exact hc.congr hview (c.set_pool_ne w _ (Ne.symm hu)) (hothers fun _ hq => by cases hq)
  | env he => exact hc.congr (h.env he) rfl hc.others

/-- In every reachable configuration the view keeps the invariant, and is idle while its thread
is not at work. -/
theorem Private.reach (h : Private Y t view K I Idle) {allow : T → S.Op → W → Prop}
    {c : Config S T W} (hc : Reach Y allow c) : Private.Settled Y.toMachine t view K I Idle c := by
  obtain ⟨w, hw, hr⟩ := hc
  induction hr with
  | refl =>
    have hidle := h.initial w hw
    exact ⟨h.idle _ hidle, fun _ => hidle, nofun, nofun⟩
  | tail _ hs ih => exact h.step ih hs

end TtWind.Effect
