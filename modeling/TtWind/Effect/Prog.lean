/-!
# Effect programs

A signature names operations and the type of answer each one gets. A
program over it is a tree: it returns, or it performs one operation and
goes on with the answer. Nothing here says what an operation does; a
`Machine` (`TtWind.Effect.Machine`) gives the meaning.

`Prog.Within J K p` is the static footprint: every operation that `p` can
reach while the answers it gets satisfy `J` satisfies `K`. It is closed under
sequencing, so the footprint of a program is read off its parts.
`Prog.Only K p` is the case of arbitrary answers. `Prog.Leads p evs q` says what is left of
a program after some operations, `Prog.Until B K Q p` what it does before one of `B`, and
`Prog.Traced B Q evs p` what it does after a history.
-/

set_option autoImplicit false

namespace TtWind.Effect

/-- Operations, and the answer type of each. -/
structure Sig where
  Op : Type
  Ans : Op → Type

/-- Programs over a signature: return a value, or perform an operation and
continue with its answer. -/
inductive Prog (S : Sig) (α : Type) : Type where
  | pure (a : α)
  | vis (o : S.Op) (k : S.Ans o → Prog S α)

namespace Prog

variable {S : Sig} {α β γ : Type}

/-- Sequencing: graft `f` on every leaf. -/
protected def bind (p : Prog S α) (f : α → Prog S β) : Prog S β :=
  match p with
  | .pure a => f a
  | .vis o k => .vis o fun x => (k x).bind f

instance : Monad (Prog S) where
  pure := .pure
  bind := Prog.bind

/-- One operation, answering its own answer. -/
def perform (o : S.Op) : Prog S (S.Ans o) := .vis o .pure

@[simp] theorem pure_bind (a : α) (f : α → Prog S β) : (Pure.pure a : Prog S α) >>= f = f a := rfl

@[simp] theorem leaf_bind (a : α) (f : α → Prog S β) : (Prog.pure a : Prog S α) >>= f = f a := rfl

@[simp] theorem vis_bind (o : S.Op) (k : S.Ans o → Prog S α) (f : α → Prog S β) :
    (Prog.vis o k : Prog S α) >>= f = .vis o fun x => k x >>= f := rfl

@[simp] theorem perform_bind (o : S.Op) (f : S.Ans o → Prog S β) :
    perform o >>= f = .vis o f := rfl

theorem bind_pure (p : Prog S α) : p >>= (fun a => Prog.pure a) = p := by
  induction p with
  | pure a => rfl
  | vis o k ih => exact congrArg (Prog.vis o) (funext ih)

theorem bind_assoc (p : Prog S α) (f : α → Prog S β) (g : β → Prog S γ) :
    (p >>= f) >>= g = p >>= fun a => f a >>= g := by
  induction p with
  | pure a => rfl
  | vis o k ih => exact congrArg (Prog.vis o) (funext ih)

/-- A sequence is grafted on a longer one branch by branch. -/
theorem bind_eq_bind {p : Prog S γ} {g : γ → Prog S β} {g' : γ → Prog S α} {f : α → Prog S β}
    (h : ∀ a, g a = g' a >>= f) : p >>= g = (p >>= g') >>= f := by
  rw [bind_assoc]
  exact congrArg (p >>= ·) (funext h)

theorem ite_eq_bind {c : Prop} [Decidable c] {p q : Prog S β} {p' q' : Prog S α}
    {f : α → Prog S β} (hp : c → p = p' >>= f) (hq : q = q' >>= f) :
    (if c then p else q) = (if c then p' else q') >>= f := by
  split
  · exact hp ‹_›
  · exact hq

/-! ## The static footprint -/

/-- Every operation the program can reach while the answers it gets satisfy `J`
satisfies `K`. -/
def Within (J : (o : S.Op) → S.Ans o → Prop) (K : S.Op → Prop) : Prog S α → Prop
  | .pure _ => True
  | .vis o k => K o ∧ ∀ x, J o x → (k x).Within J K

/-- Every operation the program can reach under any answers satisfies `K`. -/
abbrev Only (K : S.Op → Prop) (p : Prog S α) : Prop := p.Within (fun _ _ => True) K

variable {J : (o : S.Op) → S.Ans o → Prop} {K L : S.Op → Prop}

@[simp] theorem within_pure (a : α) : (Pure.pure a : Prog S α).Within J K := trivial

@[simp] theorem within_leaf (a : α) : (Prog.pure a : Prog S α).Within J K := trivial

@[simp] theorem within_vis (o : S.Op) (k : S.Ans o → Prog S α) :
    (Prog.vis o k).Within J K ↔ K o ∧ ∀ x, J o x → (k x).Within J K := Iff.rfl

@[simp] theorem within_perform (o : S.Op) : (perform o).Within J K ↔ K o :=
  ⟨fun h => h.1, fun h => ⟨h, fun _ _ => trivial⟩⟩

theorem only_true (p : Prog S α) : p.Only fun _ => True := by
  induction p with
  | pure a => trivial
  | vis o k ih => exact ⟨trivial, fun x _ => ih x⟩

/-- Sequencing stays within a footprint both parts stay within. -/
theorem Within.bind {p : Prog S α} {f : α → Prog S β}
    (hp : p.Within J K) (hf : ∀ a, (f a).Within J K) : (p >>= f).Within J K := by
  induction p with
  | pure a => exact hf a
  | vis o k ih => exact ⟨hp.1, fun x hx => ih x (hp.2 x hx)⟩

/-- After one operation, with what its answer is known to satisfy. -/
theorem Within.perform_bind {o : S.Op} {f : S.Ans o → Prog S β}
    (ho : K o) (hf : ∀ x, J o x → (f x).Within J K) : (perform o >>= f).Within J K := ⟨ho, hf⟩

theorem Within.ite {c : Prop} [Decidable c] {p q : Prog S α} (hp : c → p.Within J K)
    (hq : ¬ c → q.Within J K) : (if c then p else q).Within J K := by
  split
  · exact hp ‹_›
  · exact hq ‹_›

theorem Within.mono (h : ∀ o, K o → L o) {p : Prog S α} (hp : p.Within J K) :
    p.Within J L := by
  induction p with
  | pure a => trivial
  | vis o k ih => exact ⟨h o hp.1, fun x hx => ih x (hp.2 x hx)⟩

/-- What holds under any answers holds under the ones assumed. -/
theorem Only.within {p : Prog S α} (hp : p.Only K) : p.Within J K := by
  induction p with
  | pure a => trivial
  | vis o k ih => exact ⟨hp.1, fun x _ => ih x (hp.2 x trivial)⟩

/-! ## What is left of a program -/

/-- After the operations and answers listed, latest first, `q` is what is left of `p`. -/
inductive Leads (p : Prog S α) : List ((o : S.Op) × S.Ans o) → Prog S α → Prop where
  | start : Leads p [] p
  | step {evs : List ((o : S.Op) × S.Ans o)} {o : S.Op} {k : S.Ans o → Prog S α} (x : S.Ans o) :
      Leads p evs (.vis o k) → Leads p (⟨o, x⟩ :: evs) (k x)

theorem leads_nil {p q : Prog S α} (h : p.Leads [] q) : q = p := by
  cases h
  rfl

/-- The latest operation was the first of what was left before it. -/
theorem leads_cons {p q : Prog S α} {ev : (o : S.Op) × S.Ans o}
    {evs : List ((o : S.Op) × S.Ans o)} (h : p.Leads (ev :: evs) q) :
    ∃ k, p.Leads evs (.vis ev.1 k) ∧ q = k ev.2 := by
  cases h with
  | step x h => exact ⟨_, h, rfl⟩

/-- The first operation of what is left is performed. -/
theorem Leads.next {p : Prog S α} {evs : List ((o : S.Op) × S.Ans o)} {o : S.Op} {k : S.Ans o → Prog S α}
    (h : p.Leads evs (.vis o k)) (x : S.Ans o) : p.Leads (⟨o, x⟩ :: evs) (k x) := .step x h

/-- An operation in front of what was performed. -/
theorem Leads.prepend {o : S.Op} {k : S.Ans o → Prog S α} {x : S.Ans o} {q : Prog S α}
    {evs : List ((o : S.Op) × S.Ans o)} (h : (k x).Leads evs q) :
    (Prog.vis o k).Leads (evs ++ [⟨o, x⟩]) q := by
  induction h with
  | start => exact .step x .start
  | step y _ ih => exact .step y ih

/-- A program that has not performed its first operation is whole. -/
theorem Leads.first {o : S.Op} {k : S.Ans o → Prog S α} {q : Prog S α}
    {evs : List ((o : S.Op) × S.Ans o)} (h : (Prog.vis o k).Leads evs q) :
    (evs = [] ∧ q = .vis o k) ∨ ∃ x rest, evs = rest ++ [⟨o, x⟩] ∧ (k x).Leads rest q := by
  induction h with
  | start => exact .inl ⟨rfl, rfl⟩
  | step y _ ih =>
    obtain ⟨rfl, hq⟩ | ⟨x, rest, rfl, hrest⟩ := ih
    · cases hq
      exact .inr ⟨y, [], rfl, .start⟩
    · exact .inr ⟨x, _ :: rest, rfl, .step y hrest⟩

/-- A program that has returned performed its first operation first. -/
theorem leads_vis {o : S.Op} {k : S.Ans o → Prog S α} {a : α} {evs : List ((o : S.Op) × S.Ans o)} :
    (Prog.vis o k).Leads evs (.pure a) ↔
      ∃ x rest, evs = rest ++ [⟨o, x⟩] ∧ (k x).Leads rest (.pure a) := by
  constructor
  · intro h
    obtain ⟨-, hq⟩ | hrest := h.first
    · cases hq
    · exact hrest
  · rintro ⟨x, rest, rfl, h⟩
    exact h.prepend

/-- A program that has returned does nothing more. -/
theorem Leads.of_pure {a : α} {q : Prog S α} {evs : List ((o : S.Op) × S.Ans o)}
    (h : (Prog.pure a : Prog S α).Leads evs q) : evs = [] ∧ q = .pure a := by
  induction h with
  | start => exact ⟨rfl, rfl⟩
  | step y _ ih => cases ih.2

theorem leads_pure {a b : α} {evs : List ((o : S.Op) × S.Ans o)} :
    (Pure.pure a : Prog S α).Leads evs (.pure b) ↔ evs = [] ∧ b = a := by
  constructor
  · intro h
    obtain ⟨rfl, hq⟩ := h.of_pure
    cases hq
    exact ⟨rfl, rfl⟩
  · rintro ⟨rfl, rfl⟩
    exact .start

/-- A single operation is all that is left before it is performed. -/
theorem Leads.of_perform {o o' : S.Op} {k : S.Ans o → Prog S (S.Ans o')} {evs : List ((o : S.Op) × S.Ans o)}
    (h : (perform o').Leads evs (.vis o k)) : evs = [] ∧ o = o' := by
  rcases h.first with ⟨rfl, hq⟩ | ⟨x, rest, rfl, hrest⟩
  · cases hq
    exact ⟨rfl, rfl⟩
  · cases (hrest.of_pure).2

theorem leads_perform {o : S.Op} {x : S.Ans o} {evs : List ((o : S.Op) × S.Ans o)} :
    (perform o).Leads evs (.pure x) ↔ evs = [⟨o, x⟩] := by
  rw [perform, leads_vis]
  constructor
  · rintro ⟨y, rest, rfl, h⟩
    obtain ⟨rfl, rfl⟩ := leads_pure.mp h
    rfl
  · rintro rfl
    exact ⟨x, [], rfl, .start⟩

/-- A program that begins with one operation performed that first. -/
theorem leads_perform_bind {o : S.Op} {f : S.Ans o → Prog S α} {a : α} {evs : List ((o : S.Op) × S.Ans o)} :
    (perform o >>= f).Leads evs (.pure a) ↔
      ∃ x rest, evs = rest ++ [⟨o, x⟩] ∧ (f x).Leads rest (.pure a) := leads_vis

/-- What a sequence performed is what its parts did, the first part first. -/
theorem leads_bind {p : Prog S α} {f : α → Prog S β} {b : β} {evs : List ((o : S.Op) × S.Ans o)} :
    (p >>= f).Leads evs (.pure b) ↔
      ∃ a before after, evs = after ++ before ∧ p.Leads before (.pure a) ∧
        (f a).Leads after (.pure b) := by
  induction p generalizing evs with
  | pure a =>
    constructor
    · intro h
      exact ⟨a, [], evs, (List.append_nil evs).symm, .start, h⟩
    · rintro ⟨a', before, after, rfl, h, hf⟩
      obtain ⟨rfl, rfl⟩ := leads_pure.mp h
      rwa [List.append_nil]
  | vis o k ih =>
    rw [vis_bind, leads_vis]
    constructor
    · rintro ⟨x, rest, rfl, h⟩
      obtain ⟨a, before, after, rfl, hp, hf⟩ := (ih x).mp h
      exact ⟨a, before ++ [⟨o, x⟩], after, List.append_assoc .., hp.prepend, hf⟩
    · rintro ⟨a, before, after, rfl, hp, hf⟩
      obtain ⟨x, rest, rfl, hk⟩ := leads_vis.mp hp
      exact ⟨x, after ++ rest, (List.append_assoc ..).symm, (ih x).mpr ⟨a, rest, after, rfl, hk, hf⟩⟩

/-- A program and what it has performed determine what is left. -/
theorem Leads.unique {p q q' : Prog S α} {evs : List ((o : S.Op) × S.Ans o)}
    (h : p.Leads evs q) (h' : p.Leads evs q') : q = q' := by
  induction h generalizing q' with
  | start => exact (leads_nil h').symm
  | step x _ ih =>
    obtain ⟨k', hbefore, hq⟩ := leads_cons h'
    cases ih hbefore
    exact hq.symm

/-- What is left goes on. -/
theorem Leads.append {p q r : Prog S α} {evs evs' : List ((o : S.Op) × S.Ans o)}
    (h : p.Leads evs q) (h' : q.Leads evs' r) : p.Leads (evs' ++ evs) r := by
  induction h' with
  | start => exact h
  | step x _ ih => exact .step x ih

/-- A history in two parts. -/
theorem Leads.split {p r : Prog S α} {evs evs' : List ((o : S.Op) × S.Ans o)}
    (h : p.Leads (evs' ++ evs) r) : ∃ q, p.Leads evs q ∧ q.Leads evs' r := by
  induction evs' generalizing r with
  | nil => exact ⟨r, h, .start⟩
  | cons ev evs' ih =>
    obtain ⟨k, hk, rfl⟩ := leads_cons h
    obtain ⟨q, hq, hrest⟩ := ih hk
    exact ⟨q, hq, .step ev.2 hrest⟩

/-- A program in front of another performs what it performs alone. -/
theorem Leads.bind {p q : Prog S α} {evs : List ((o : S.Op) × S.Ans o)} (h : p.Leads evs q)
    (f : α → Prog S β) : (p >>= f).Leads evs (q >>= f) := by
  induction h with
  | start => exact .start
  | step x _ ih => exact .step x ih

/-- After what it has performed, the program is about to run `f`. -/
def Calls (p : Prog S α) (evs : List ((o : S.Op) × S.Ans o)) (f : Prog S β) : Prop :=
  ∃ k, p.Leads evs (f >>= k)

theorem Calls.start (f : Prog S β) (k : β → Prog S α) : (f >>= k).Calls [] f := ⟨k, .start⟩

theorem Calls.bind {p : Prog S α} {f : Prog S β} {evs : List ((o : S.Op) × S.Ans o)}
    (h : p.Calls evs f) (g : α → Prog S γ) : (p >>= g).Calls evs f := by
  obtain ⟨k, h⟩ := h
  refine ⟨fun b => k b >>= g, ?_⟩
  rw [← Prog.bind_assoc]
  exact h.bind g

theorem Calls.perform {o : S.Op} {k : S.Ans o → Prog S α} {f : Prog S β}
    {e : List ((o : S.Op) × S.Ans o)} {x : S.Ans o} (h : (k x).Calls e f) :
    (Prog.perform o >>= k).Calls (e ++ [⟨o, x⟩]) f := by
  obtain ⟨k', h⟩ := h
  exact ⟨k', h.prepend⟩

theorem Calls.ite {c : Prop} [Decidable c] {p q : Prog S α} {f : Prog S β}
    {evs : List ((o : S.Op) × S.Ans o)} (hc : ¬ c) (h : q.Calls evs f) : (if c then p else q).Calls evs f := by
  rw [if_neg hc]
  exact h

/-- What was performed and what is left stay within the footprint. -/
theorem Leads.only {p q : Prog S α} {evs : List ((o : S.Op) × S.Ans o)} (h : p.Leads evs q)
    (hp : p.Only K) : q.Only K ∧ ∀ ev ∈ evs, K ev.1 := by
  induction h with
  | start => exact ⟨hp, fun _ h => by cases h⟩
  | step x _ ih =>
    obtain ⟨⟨ho, hk⟩, hbefore⟩ := ih
    refine ⟨hk x trivial, fun ev hev => ?_⟩
    rcases List.mem_cons.mp hev with rfl | hev
    · exact ho
    · exact hbefore ev hev

/-! ## Up to an operation -/

/-- Every operation the program can reach before one of `B` satisfies `K`, and what it returns
without one satisfies `Q`. -/
def Until (B K : S.Op → Prop) (Q : α → Prop) : Prog S α → Prop
  | .pure a => Q a
  | .vis o k => K o ∧ (¬ B o → ∀ x, (k x).Until B K Q)

variable {B : S.Op → Prop} {Q Q' : α → Prop}

@[simp] theorem until_pure (a : α) : (Pure.pure a : Prog S α).Until B K Q ↔ Q a := Iff.rfl

theorem Until.bind {p : Prog S α} {f : α → Prog S β} {R : β → Prop} (hp : p.Until B K Q)
    (hf : ∀ a, Q a → (f a).Until B K R) : (p >>= f).Until B K R := by
  induction p with
  | pure a => exact hf a hp
  | vis o k ih => exact ⟨hp.1, fun hn x => ih x (hp.2 hn x)⟩

theorem Until.ite {c : Prop} [Decidable c] {p q : Prog S α} (hp : c → p.Until B K Q)
    (hq : ¬ c → q.Until B K Q) : (if c then p else q).Until B K Q := by
  split
  · exact hp ‹_›
  · exact hq ‹_›

theorem Until.perform_bind {o : S.Op} {f : S.Ans o → Prog S β} {R : β → Prop} (ho : K o)
    (hf : ∀ x, (f x).Until B K R) : (perform o >>= f).Until B K R := ⟨ho, fun _ => hf⟩

/-- A program that stays within `K` does so up to any operation. -/
theorem Only.until {p : Prog S α} (hp : p.Only K) : p.Until B K fun _ => True := by
  induction p with
  | pure a => trivial
  | vis o k ih => exact ⟨hp.1, fun _ x => ih x (hp.2 x trivial)⟩

/-- What is left of the program while no operation of `B` was performed. -/
theorem Leads.until {p q : Prog S α} {evs : List ((o : S.Op) × S.Ans o)} (h : p.Leads evs q)
    (hp : p.Until B K Q) (hn : ∀ ev ∈ evs, ¬ B ev.1) : q.Until B K Q := by
  induction h with
  | start => exact hp
  | step x _ ih =>
    have hbefore := ih fun ev hev => hn ev (List.mem_cons_of_mem _ hev)
    exact hbefore.2 (hn _ List.mem_cons_self) x

/-! ## What a history says -/

/-- Run after the history `evs`, latest first, the program performs every operation where `B`
holds of the history before it, and returns where `Q` does. -/
def Traced (B : List ((o : S.Op) × S.Ans o) → S.Op → Prop)
    (Q : List ((o : S.Op) × S.Ans o) → α → Prop) : List ((o : S.Op) × S.Ans o) → Prog S α → Prop
  | evs, .pure a => Q evs a
  | evs, .vis o k => B evs o ∧ ∀ x, (k x).Traced B Q (⟨o, x⟩ :: evs)

section Traced

variable {B : List ((o : S.Op) × S.Ans o) → S.Op → Prop}
  {Q : List ((o : S.Op) × S.Ans o) → α → Prop} {R : List ((o : S.Op) × S.Ans o) → β → Prop}
  {evs : List ((o : S.Op) × S.Ans o)}

theorem Traced.bind {p : Prog S α} {f : α → Prog S β} (hp : p.Traced B Q evs)
    (hf : ∀ a evs, Q evs a → (f a).Traced B R evs) : (p >>= f).Traced B R evs := by
  induction p generalizing evs with
  | pure a => exact hf a evs hp
  | vis o k ih => exact ⟨hp.1, fun x => ih x (hp.2 x)⟩

theorem Traced.ite {c : Prop} [Decidable c] {p q : Prog S α} (hp : c → p.Traced B Q evs)
    (hq : ¬ c → q.Traced B Q evs) : (if c then p else q).Traced B Q evs := by
  split
  · exact hp ‹_›
  · exact hq ‹_›

/-- A program that stays within `K`, after a history that `B` only needs part of. -/
theorem Only.traced_after {K : S.Op → Prop} {p : Prog S α} (hp : p.Only K)
    (hK : ∀ evs', evs <:+ evs' → ∀ o, K o → B evs' o) : p.Traced B (fun evs' _ => evs <:+ evs') evs := by
  have hall : ∀ {evs' : List ((o : S.Op) × S.Ans o)}, evs <:+ evs' →
      p.Traced B (fun evs' _ => evs <:+ evs') evs' := by
    induction p with
    | pure a => exact id
    | vis o k ih =>
      intro evs' hsuffix
      exact ⟨hK evs' hsuffix o hp.1, fun x => ih x (hp.2 x trivial) (hsuffix.trans (List.suffix_cons _ _))⟩
  exact hall (List.suffix_refl evs)

theorem Traced.mono {p : Prog S α} {Q' : List ((o : S.Op) × S.Ans o) → α → Prop} (hp : p.Traced B Q evs)
    (hQ : ∀ evs a, Q evs a → Q' evs a) : p.Traced B Q' evs := by
  induction p generalizing evs with
  | pure a => exact hQ evs a hp
  | vis o k ih => exact ⟨hp.1, fun x => ih x (hp.2 x)⟩

/-- A program that stays within `K`, whatever the history. -/
theorem Only.traced {K : S.Op → Prop} (hK : ∀ evs o, K o → B evs o) {p : Prog S α}
    (hp : p.Only K) (evs : List ((o : S.Op) × S.Ans o)) : p.Traced B (fun _ _ => True) evs :=
  (hp.traced_after fun evs' _ o => hK evs' o).mono fun _ _ _ => trivial

theorem Leads.traced {p q : Prog S α} (h : p.Leads evs q) (hp : p.Traced B Q []) :
    q.Traced B Q evs := by
  induction h with
  | start => exact hp
  | step x _ ih => exact ih.2 x

/-- Where an event was performed, `B` held of the history before it. -/
theorem Leads.traced_events {p q : Prog S α} (h : p.Leads evs q) (hp : p.Traced B Q []) :
    ∀ ev ∈ evs, ∃ before, before <:+ evs ∧ B before ev.1 := by
  induction h with
  | start => nofun
  | @step evs o k x h ih =>
    have hleft : (Prog.vis o k).Traced B Q evs := h.traced hp
    intro ev hev
    rcases List.mem_cons.mp hev with rfl | hev
    · exact ⟨evs, List.suffix_cons _ _, hleft.1⟩
    · obtain ⟨before, hsuffix, hb⟩ := ih ev hev
      exact ⟨before, hsuffix.trans (List.suffix_cons _ _), hb⟩

end Traced

end Prog

end TtWind.Effect
