import TtWind.Effect.Drain
import TtWind.Laws.Buffers
import TtWind.Laws.LockOrder

/-!
# Every request is completed once

A request, and the creation of a handle, is completed by its own thread, as the last thing it does,
and never twice; no other callback completes anything. And none is left waiting: the callbacks and
requests at work come to their ends by themselves, in whatever order they are scheduled.
-/

set_option autoImplicit false

namespace TtWind

open TtWind.Effect TtWind.Effect.Prog

/-- The operation completes a request. -/
def Op.completes : Op → Prop
  | .complete _ _ => True
  | _ => False

/-- The history of a call that has completed its request: once, with its last operation. -/
def Completed (evs : List Event) : Prop :=
  ∃ status n before, evs = ⟨.complete status n, ()⟩ :: before ∧ ∀ ev ∈ before, ¬ ev.1.completes

/-- As long as no operation was a completion, the request is not completed. -/
theorem next_done {s : BufferUse} {ev : Event} : (s.next ev).done = true ↔ s.done = true ∨ ev.1.completes := by
  obtain ⟨o, x⟩ := ev
  unfold BufferUse.next
  cases o with
  | complete => simp [Op.completes]
  | inputBuffer => simp only; split <;> simp [Op.completes]
  | outputBuffer => simp only; split <;> simp [Op.completes]
  | outField => simp only; split <;> simp [Op.completes]
  | _ => simp [Op.completes]

theorem foldr_done {evs : List Event} :
    (evs.foldr BufferUse.next {}).done = true ↔ ∃ ev ∈ evs, ev.1.completes := by
  induction evs with
  | nil => simp
  | cons ev evs ih => rw [List.foldr_cons, next_done, ih, List.exists_mem_cons_iff, or_comm]

/-- While a request's code runs it is not completed. -/
theorem pending_of_leads {p : Drv Unit} {o : Op} {k : o.Ans → Drv Unit} {evs : List Event}
    (hp : Obeys {} p fun s _ => s.done = true) (h : p.Leads evs (.vis o k)) : ∀ ev ∈ evs, ¬ ev.1.completes := by
  have hopen := (h.follows hp).1.1
  intro ev hev hcomplete
  rw [foldr_done.mpr ⟨ev, hev, hcomplete⟩] at hopen
  cases hopen

/-- When it has run, it has just been completed. -/
theorem completed_of_leads {p : Drv Unit} {evs : List Event} (hp : Obeys {} p fun s _ => s.done = true)
    (h : p.Leads evs (.pure ())) : Completed evs := by
  have hdone : (evs.foldr BufferUse.next {}).done = true := h.follows hp
  cases evs with
  | nil => cases hdone
  | cons ev before =>
    obtain ⟨k, hbefore, -⟩ := leads_cons h
    have hpending := pending_of_leads hp hbefore
    have hlast : ev.1.completes := by
      rcases next_done.mp hdone with hearlier | hlast
      · obtain ⟨ev', hev', hcomplete⟩ := foldr_done.mp hearlier
        exact absurd hcomplete (hpending ev' hev')
      · exact hlast
    obtain ⟨o, x⟩ := ev
    cases o with
    | complete status n => exact ⟨status, n, before, rfl, hpending⟩
    | _ => exact hlast.elim

/-- The requests of a run: not completed while their code runs, completed once it has run. Nothing else
completes a request. -/
structure Answered (c : DriverConfig) : Prop where
  pending : ∀ {t o k}, t.HasRequest → c.pool t = some (.vis o k) → ∀ ev ∈ c.world.hist t, ¬ ev.1.completes
  finished : ∀ {t}, t.HasRequest → c.pool t = some (.pure ()) → Completed (c.world.hist t)
  past : ∀ {t}, t.HasRequest → c.pool t = none → c.world.hist t = [] ∨ Completed (c.world.hist t)
  others : ∀ {t}, ¬ t.HasRequest → ∀ ev ∈ c.world.hist t, ¬ ev.1.completes

theorem reach_answered {c : DriverConfig} (h : Reach driver anyStep c) : Answered c := by
  constructor
  · intro t o k ht hp
    obtain ⟨p, hcall, hleads⟩ := reach_inCall h hp
    exact pending_of_leads (call_obeys hcall ht) hleads
  · intro t ht hp
    obtain ⟨p, hcall, hleads⟩ := reach_inCall h hp
    exact completed_of_leads (call_obeys hcall ht) hleads
  · intro t ht hp
    rcases reach_past h hp with hnone | ⟨w, p, hcall, hleads⟩
    · exact .inl hnone
    · exact .inr (completed_of_leads (call_obeys hcall ht) hleads)
  · intro t ht ev hev hcomplete
    have hspares : ∀ {w : World} {p q : Drv Unit}, w.Call p t → p.Leads (c.world.hist t) q → False := by
      intro w p q hcall hleads
      have hrequestless := (hleads.only (call_requestless hcall ht)).2 ev hev
      obtain ⟨o, x⟩ := ev
      cases o <;> first | exact hcomplete | exact hrequestless
    cases hp : c.pool t with
    | none =>
      rcases reach_past h hp with hnone | ⟨w, p, hcall, hleads⟩
      · rw [hnone] at hev
        cases hev
      · exact hspares hcall hleads
    | some q =>
      obtain ⟨p, hcall, hleads⟩ := reach_inCall h hp
      exact hspares hcall hleads

/-- What happens without the driver leaves every history. -/
theorem environment_hist {w w' : World} (h : Relation.ReflTransGen driver.env w w') : w'.hist = w.hist := by
  induction h with
  | refl => rfl
  | tail _ he ih =>
    rw [← ih]
    cases he <;> rfl

/-- A request under way stays so until it is completed. -/
theorem works_completes {c c' : DriverConfig} (hc : Reach driver anyStep c)
    (h : Relation.ReflTransGen (Works driver) c c') {t : Tid} (ht : t.HasRequest) (hl : c.live t) :
    c'.live t ∨ Completed (c'.world.hist t) := by
  induction h with
  | refl => exact .inl hl
  | @tail c₁ c₂ hworks hstep ih =>
    have hreach : Reach driver anyStep c₁ := hc.run (run_of_works hworks)
    cases hstep with
    | @exec w w' u o k e x henv hp he =>
      by_cases hu : t = u
      · subst hu
        refine .inl ?_
        rw [Config.live, Config.set_pool_self]
        exact Option.some_ne_none _
      · rw [Config.set_live_ne _ _ _ hu, Config.set_world, (World.exec_frame he).hist,
          Function.update_of_ne hu, environment_hist henv]
        exact ih
    | @ends w w' u henv hp he =>
      obtain rfl : w' = w.leave u := he
      have hhist : (w.leave u).hist = c₁.world.hist := by
        rw [← environment_hist henv]
        cases u <;> rfl
      rw [Config.set_world, hhist]
      by_cases hu : t = u
      · subst hu
        exact .inr ((reach_answered hreach).finished ht hp)
      · rw [Config.set_live_ne _ _ _ hu]
        exact ih

/-- Requests are completed once; and if no new call begins, the calls under way take finitely many more
steps, in whatever order, until none is left, every request they had is completed and no lock is held. -/
structure CompletesOnce (c : DriverConfig) : Prop where
  answered : Answered c
  finite : Acc (fun c' c => Works driver c c') c
  drained : ∀ {c'}, Relation.ReflTransGen (Works driver) c c' → (∀ c'', ¬ Works driver c' c'') →
    (∀ t, ¬ c'.live t) ∧ (∀ t, t.HasRequest → c.live t → Completed (c'.world.hist t)) ∧
      ∀ l, c'.world.holder l = none

/-- In every run, every request is completed once. -/
theorem requests_complete_once {c : DriverConfig} (h : Reach driver anyStep c) : CompletesOnce c := by
  obtain ⟨hfinite, hdrains⟩ := h.drains locking_lawful begins_ordered fun t w => ⟨w.leave t, rfl⟩
  refine ⟨reach_answered h, hfinite, fun hworks hstuck => ?_⟩
  obtain ⟨hnone, hfree⟩ := hdrains hworks hstuck
  refine ⟨hnone, fun t ht hl => ?_, hfree⟩
  exact (works_completes h hworks ht hl).resolve_left (hnone t)

/-- A message that waits for the power thread will be completed once. -/
theorem requests_complete_once_waiting :
    ∃ c, Reach driver anyStep c ∧ c.WaitsFor locking .ioctl .power ∧ CompletesOnce c := by
  obtain ⟨c, hreach, hwaits⟩ := exists_waiting
  exact ⟨c, hreach, hwaits, requests_complete_once hreach⟩

end TtWind
