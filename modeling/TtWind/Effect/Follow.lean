import TtWind.Effect.Prog

/-!
# Programs that follow an automaton

An automaton over the history of a program, and in each of its states the operations it allows.
A program that follows it performs only what is allowed where the history has led, and returns
in a state that is as stated. So the state of the automaton can be read off the history alone,
whoever else steps meanwhile.
-/

set_option autoImplicit false

namespace TtWind.Effect.Prog

variable {S : Sig} {α β σ : Type}

/-- From state `s` on, every operation is allowed where the history has led, and what is returned
satisfies `Q` there. -/
def Follows (allows : σ → S.Op → Prop) (next : ((o : S.Op) × S.Ans o) → σ → σ) (Q : σ → α → Prop) :
    σ → Prog S α → Prop
  | s, .pure a => Q s a
  | s, .vis o k => allows s o ∧ ∀ x, (k x).Follows allows next Q (next ⟨o, x⟩ s)

variable {allows : σ → S.Op → Prop} {next : ((o : S.Op) × S.Ans o) → σ → σ} {Q Q' : σ → α → Prop}
  {R : σ → β → Prop} {s : σ}

theorem follows_pure {a : α} (h : Q s a) : (Pure.pure a : Prog S α).Follows allows next Q s := h

theorem Follows.bind {p : Prog S α} {f : α → Prog S β} (hp : p.Follows allows next Q s)
    (hf : ∀ s a, Q s a → (f a).Follows allows next R s) : (p >>= f).Follows allows next R s := by
  induction p generalizing s with
  | pure a => exact hf s a hp
  | vis o k ih => exact ⟨hp.1, fun x => ih x (hp.2 x)⟩

/-- After a program that ends in the state it began in. -/
theorem Follows.still {p : Prog S α} {f : α → Prog S β} (hp : p.Follows allows next (fun s' _ => s' = s) s)
    (hf : ∀ a, (f a).Follows allows next R s) : (p >>= f).Follows allows next R s := by
  apply hp.bind
  intro s' a hs
  rw [hs]
  exact hf a

theorem Follows.ite {c : Prop} [Decidable c] {p q : Prog S α} (hp : c → p.Follows allows next Q s)
    (hq : ¬ c → q.Follows allows next Q s) : (if c then p else q).Follows allows next Q s := by
  split
  · exact hp ‹_›
  · exact hq ‹_›

theorem Follows.mono {p : Prog S α} (hp : p.Follows allows next Q s) (hQ : ∀ s a, Q s a → Q' s a) :
    p.Follows allows next Q' s := by
  induction p generalizing s with
  | pure a => exact hQ s a hp
  | vis o k ih => exact ⟨hp.1, fun x => ih x (hp.2 x)⟩

/-- Operations that are allowed in a state and do not leave it. -/
theorem Only.follows {K : S.Op → Prop} {p : Prog S α} (hp : p.Only K) (hK : ∀ o, K o → allows s o)
    (hnext : ∀ o x, K o → next ⟨o, x⟩ s = s) : p.Follows allows next (fun s' _ => s' = s) s := by
  induction p with
  | pure a => exact rfl
  | vis o k ih =>
    refine ⟨hK o hp.1, fun x => ?_⟩
    rw [hnext o x hp.1]
    exact ih x (hp.2 x trivial)

/-- Operations that are allowed wherever a property holds, and keep it. -/
theorem Only.follows_keeping {K : S.Op → Prop} {p : Prog S α} (hp : p.Only K) {I : σ → Prop} (hs : I s)
    (hK : ∀ s o, I s → K o → allows s o) (hnext : ∀ s o x, I s → K o → I (next ⟨o, x⟩ s)) :
    p.Follows allows next (fun s' _ => I s') s := by
  induction p generalizing s with
  | pure a => exact hs
  | vis o k ih => exact ⟨hK s o hs hp.1, fun x => ih x (hp.2 x trivial) (hnext s o x hs hp.1)⟩

/-- What is left of a program goes on where the history has led. -/
theorem Leads.follows {p q : Prog S α} {evs : List ((o : S.Op) × S.Ans o)} (h : p.Leads evs q)
    (hp : p.Follows allows next Q s) : q.Follows allows next Q (evs.foldr next s) := by
  induction h with
  | start => exact hp
  | step x _ ih => exact ih.2 x

/-- What every allowed operation keeps of the state holds where the history has led. -/
theorem Leads.follows_keeps {p q : Prog S α} {evs : List ((o : S.Op) × S.Ans o)} (h : p.Leads evs q)
    (hp : p.Follows allows next Q s) {I : σ → Prop} (hs : I s)
    (hkeeps : ∀ s o x, allows s o → I s → I (next ⟨o, x⟩ s)) : I (evs.foldr next s) := by
  induction h with
  | start => exact hs
  | step x h ih => exact hkeeps _ _ x (h.follows hp).1 ih

end TtWind.Effect.Prog
