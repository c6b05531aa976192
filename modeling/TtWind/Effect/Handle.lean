import TtWind.Effect.Prog

/-!
# Programs written over smaller operations

A handler gives a program over one signature for each operation of another. `Prog.handle` puts
these in the place of the operations, so that a piece of code that only uses a few accessors is
a program over the accessors' own signature, handled. `Serves` relates the two histories: each
event above is a finished run of its program below.
-/

set_option autoImplicit false

namespace TtWind.Effect.Prog

variable {S S' : Sig} {α β : Type} (h : (o : S.Op) → Prog S' (S.Ans o))

/-- Every operation replaced by its program. -/
def handle : Prog S α → Prog S' α
  | .pure a => .pure a
  | .vis o k => h o >>= fun x => (k x).handle

@[simp] theorem handle_pure (a : α) : (Pure.pure a : Prog S α).handle h = Pure.pure a := rfl

@[simp] theorem handle_vis (o : S.Op) (k : S.Ans o → Prog S α) :
    (Prog.vis o k).handle h = h o >>= fun x => (k x).handle h := rfl

/-- Handling goes through sequencing. -/
@[simp] theorem handle_bind (p : Prog S α) (f : α → Prog S β) :
    (p >>= f).handle h = p.handle h >>= fun a => (f a).handle h := by
  induction p with
  | pure a => rfl
  | vis o k ih =>
    rw [vis_bind, handle_vis, handle_vis, bind_assoc]
    exact congrArg (h o >>= ·) (funext ih)

/-- A single operation is what its handler does. -/
@[simp] theorem handle_perform (o : S.Op) : (perform o).handle h = h o := bind_pure (h o)

@[simp] theorem handle_ite {c : Prop} [Decidable c] (p q : Prog S α) :
    (if c then p else q).handle h = if c then p.handle h else q.handle h := by
  split <;> rfl

/-- Two handlers in turn are one. -/
theorem handle_handle {S'' : Sig} (h' : (o : S'.Op) → Prog S'' (S'.Ans o)) (p : Prog S α) :
    (p.handle h).handle h' = p.handle fun o => (h o).handle h' := by
  induction p with
  | pure a => rfl
  | vis o k ih =>
    rw [handle_vis, handle_bind, handle_vis]
    exact congrArg ((h o).handle h' >>= ·) (funext ih)

/-- The history below is made of finished runs of the programs for the events above, in order. -/
inductive Serves : List ((o : S.Op) × S.Ans o) → List ((o : S'.Op) × S'.Ans o) → Prop where
  | nil : Serves [] []
  | cons {evs : List ((o : S.Op) × S.Ans o)} {below run : List ((o : S'.Op) × S'.Ans o)} {o : S.Op}
      {x : S.Ans o} : Serves evs below → (h o).Leads run (.pure x) →
        Serves (⟨o, x⟩ :: evs) (run ++ below)

variable {h}

/-- One operation was served by one history of its handler. -/
theorem serves_singleton {o : S.Op} {x : S.Ans o} {below : List ((o : S'.Op) × S'.Ans o)} :
    Serves h [⟨o, x⟩] below ↔ (h o).Leads below (.pure x) := by
  constructor
  · intro hs
    cases hs with
    | cons hnil hrun =>
      cases hnil
      rwa [List.append_nil]
  · intro hrun
    have hone : Serves h [⟨o, x⟩] (below ++ []) := .cons .nil hrun
    rwa [List.append_nil] at hone

/-- Histories served one after the other. -/
theorem Serves.append {evs evs' : List ((o : S.Op) × S.Ans o)}
    {below below' : List ((o : S'.Op) × S'.Ans o)} (hs : Serves h evs below)
    (hs' : Serves h evs' below') : Serves h (evs' ++ evs) (below' ++ below) := by
  induction hs' with
  | nil => exact hs
  | cons _ hrun ih =>
    rw [List.append_assoc]
    exact .cons ih hrun

/-- Every event above was answered by its program. -/
theorem Serves.answers {evs : List ((o : S.Op) × S.Ans o)} {below : List ((o : S'.Op) × S'.Ans o)}
    (hs : Serves h evs below) :
    ∀ ev ∈ evs, ∃ run, (h ev.1).Leads run (.pure ev.2) ∧ run <:+: below := by
  induction hs with
  | nil => nofun
  | @cons evs below run o x _ hrun ih =>
    intro ev hev
    rcases List.mem_cons.mp hev with rfl | hev
    · exact ⟨run, hrun, [], below, rfl⟩
    · obtain ⟨r, hr, hin⟩ := ih ev hev
      exact ⟨r, hr, hin.trans (List.suffix_append run below).isInfix⟩

/-- A handled program that has returned did what the program above it did. -/
theorem leads_handle {p : Prog S α} {a : α} {below : List ((o : S'.Op) × S'.Ans o)} :
    (p.handle h).Leads below (.pure a) ↔ ∃ evs, p.Leads evs (.pure a) ∧ Serves h evs below := by
  induction p generalizing below with
  | pure b =>
    constructor
    · intro hl
      obtain ⟨rfl, rfl⟩ := leads_pure.mp hl
      exact ⟨[], .start, .nil⟩
    · rintro ⟨evs, hl, hs⟩
      obtain ⟨rfl, rfl⟩ := leads_pure.mp hl
      cases hs
      exact .start
  | vis o k ih =>
    rw [handle_vis, leads_bind]
    constructor
    · rintro ⟨x, before, after, rfl, hrun, hrest⟩
      obtain ⟨evs, hl, hs⟩ := (ih x).mp hrest
      refine ⟨evs ++ [⟨o, x⟩], hl.prepend, ?_⟩
      exact (serves_singleton.mpr hrun).append hs
    · rintro ⟨evs, hl, hs⟩
      obtain ⟨x, rest, rfl, hk⟩ := leads_vis.mp hl
      have hsplit : ∀ {rest : List ((o : S.Op) × S.Ans o)} {below : List ((o : S'.Op) × S'.Ans o)},
          Serves h (rest ++ [⟨o, x⟩]) below →
          ∃ before after, below = after ++ before ∧ (h o).Leads before (.pure x) ∧ Serves h rest after := by
        intro rest
        induction rest with
        | nil =>
          intro below hs
          cases hs with
          | cons hnil hrun =>
            cases hnil
            exact ⟨_, [], by simp, hrun, .nil⟩
        | cons ev rest ih =>
          intro below hs
          cases hs with
          | cons hrest hrun =>
            obtain ⟨before, after, rfl, hb, ha⟩ := ih hrest
            exact ⟨before, _, (List.append_assoc ..).symm, hb, .cons ha hrun⟩
      obtain ⟨before, after, rfl, hrun, hrest⟩ := hsplit hs
      exact ⟨x, before, after, rfl, hrun, (ih x).mpr ⟨rest, hk, hrest⟩⟩

end TtWind.Effect.Prog
