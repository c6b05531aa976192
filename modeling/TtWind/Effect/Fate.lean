import TtWind.Effect.Prog

/-!
# Programs whose answers turn bad

From some operation on, every answer a program gets is known to satisfy `J`. `Prog.Returns J Q p`
is what `p` returns when that holds from its start. `Prog.Marked` is for a program in whose middle
it begins to hold: an automaton follows the history, and where the first bad answer is given in
its state `s`, what the program returns satisfies `F s`.
-/

set_option autoImplicit false

namespace TtWind.Effect.Prog

variable {S : Sig} {α β σ : Type} {J : (o : S.Op) → S.Ans o → Prop} {K : S.Op → Prop}

/-- Every run whose answers satisfy `J` returns what `Q` allows. -/
def Returns (J : (o : S.Op) → S.Ans o → Prop) (Q : α → Prop) : Prog S α → Prop
  | .pure a => Q a
  | .vis o k => ∀ x, J o x → (k x).Returns J Q

section Returns

variable {Q Q' : α → Prop} {R : β → Prop}

@[simp] theorem returns_pure (a : α) : (Pure.pure a : Prog S α).Returns J Q ↔ Q a := Iff.rfl

/-- In sequence, from what the first part returns. -/
theorem Returns.bind {p : Prog S α} {f : α → Prog S β} (hp : p.Returns J Q)
    (hf : ∀ a, Q a → (f a).Returns J R) : (p >>= f).Returns J R := by
  induction p with
  | pure a => exact hf a hp
  | vis o k ih => exact fun x hx => ih x (hp x hx)

theorem Returns.ite {c : Prop} [Decidable c] {p q : Prog S α} (hp : c → p.Returns J Q)
    (hq : ¬ c → q.Returns J Q) : (if c then p else q).Returns J Q := by
  split
  · exact hp ‹_›
  · exact hq ‹_›

/-- A weaker result will do. -/
theorem Returns.mono {p : Prog S α} (hp : p.Returns J Q) (h : ∀ a, Q a → Q' a) : p.Returns J Q' := by
  induction p with
  | pure a => exact h a hp
  | vis o k ih => exact fun x hx => ih x (hp x hx)

/-- Of what is returned nothing need be said. -/
theorem returns_true (p : Prog S α) : p.Returns J fun _ => True := by
  induction p with
  | pure a => trivial
  | vis o k ih => exact fun x _ => ih x

/-- What is left after answers that `J` allows. -/
theorem Leads.returns {p q : Prog S α} {evs : List ((o : S.Op) × S.Ans o)} (h : p.Leads evs q)
    (hp : p.Returns J Q) (hJ : ∀ ev ∈ evs, J ev.1 ev.2) : q.Returns J Q := by
  induction h with
  | start => exact hp
  | step x _ ih =>
    have hbefore := ih fun ev hev => hJ ev (List.mem_cons_of_mem _ hev)
    exact hbefore x (hJ _ List.mem_cons_self)

end Returns

/-- From state `s` of an automaton over the history: where an operation in `K` is answered as `J`
says in state `s'`, and so is whatever follows, what is returned satisfies `F s'`; otherwise what
is returned in state `s'` satisfies `Q s'`. -/
def Marked (J : (o : S.Op) → S.Ans o → Prop) (K : S.Op → Prop) (next : ((o : S.Op) × S.Ans o) → σ → σ)
    (F Q : σ → α → Prop) : σ → Prog S α → Prop
  | s, .pure a => Q s a
  | s, .vis o k => (K o → ∀ x, J o x → (k x).Returns J (F s)) ∧
      ∀ x, (k x).Marked J K next F Q (next ⟨o, x⟩ s)

section Marked

variable {next : ((o : S.Op) × S.Ans o) → σ → σ} {F F' Q Q' : σ → α → Prop} {G R : σ → β → Prop} {s : σ}

/-- A program that returns has met no marked operation since. -/
theorem marked_pure {a : α} (h : Q s a) : (Pure.pure a : Prog S α).Marked J K next F Q s := h

/-- In sequence: the first part comes to the second unmarked, or marked with what it then returns. -/
theorem Marked.bind {p : Prog S α} {f : α → Prog S β} (hp : p.Marked J K next F Q s)
    (hf : ∀ s a, Q s a → (f a).Marked J K next G R s)
    (hbad : ∀ s a, F s a → (f a).Returns J (G s)) : (p >>= f).Marked J K next G R s := by
  induction p generalizing s with
  | pure a => exact hf s a hp
  | vis o k ih =>
    constructor
    · intro ho x hx
      exact (hp.1 ho x hx).bind (hbad s)
    · intro x
      exact ih x (hp.2 x)

theorem Marked.ite {c : Prop} [Decidable c] {p q : Prog S α} (hp : c → p.Marked J K next F Q s)
    (hq : ¬ c → q.Marked J K next F Q s) : (if c then p else q).Marked J K next F Q s := by
  split
  · exact hp ‹_›
  · exact hq ‹_›

/-- Weaker fates will do. -/
theorem Marked.mono {p : Prog S α} (hp : p.Marked J K next F Q s) (hF : ∀ s a, F s a → F' s a)
    (hQ : ∀ s a, Q s a → Q' s a) : p.Marked J K next F' Q' s := by
  induction p generalizing s with
  | pure a => exact hQ s a hp
  | vis o k ih =>
    constructor
    · intro ho x hx
      exact (hp.1 ho x hx).mono (hF s)
    · intro x
      exact ih x (hp.2 x)

/-- Operations outside `K` that leave the automaton where it is. -/
theorem Only.marked {L : S.Op → Prop} {p : Prog S α} (hp : p.Only L) (hK : ∀ o, L o → ¬ K o)
    (hnext : ∀ o x, L o → next ⟨o, x⟩ s = s) : p.Marked J K next F (fun s' _ => s' = s) s := by
  induction p with
  | pure a => exact rfl
  | vis o k ih =>
    constructor
    · intro ho
      exact absurd ho (hK o hp.1)
    · intro x
      rw [hnext o x hp.1]
      exact ih x (hp.2 x trivial)

/-- What is left after a history, with the automaton where the history takes it. -/
theorem Leads.marked {p q : Prog S α} {evs : List ((o : S.Op) × S.Ans o)} (h : p.Leads evs q)
    (hp : p.Marked J K next F Q s) : q.Marked J K next F Q (evs.foldr next s) := by
  induction h with
  | start => exact hp
  | step x _ ih => exact ih.2 x

/-- In a run whose answers are bad from an operation of `K` on, the state of the automaton before
that operation says what is returned. -/
theorem Marked.fate {p : Prog S α} {a : α} {o : S.Op} {x : S.Ans o}
    {before after : List ((o : S.Op) × S.Ans o)} (hp : p.Marked J K next F Q s)
    (h : p.Leads (after ++ ⟨o, x⟩ :: before) (.pure a)) (ho : K o) (hx : J o x)
    (hJ : ∀ ev ∈ after, J ev.1 ev.2) : F (before.foldr next s) a := by
  obtain ⟨m, hm, hafter⟩ := h.split
  obtain ⟨k, hk, rfl⟩ := leads_cons hm
  have hleft : (k x).Returns J (F (before.foldr next s)) := (hk.marked hp).1 ho x hx
  exact hafter.returns hleft hJ

end Marked

end TtWind.Effect.Prog
