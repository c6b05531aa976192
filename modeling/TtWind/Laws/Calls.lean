import TtWind.Driver.Schedule
import TtWind.Laws.Frame

/-!
# The call a thread is in

A thread's history lists what its call has done so far, so the program it still has to run
is what is left of the call after its history.
-/

set_option autoImplicit false

namespace TtWind

open TtWind.Effect TtWind.Effect.Prog

/-- The code a thread may be running: the dispatcher for the request at hand, or the
callback of the thread. -/
def World.Call (w : World) (p : Drv Unit) : Tid → Prop
  | .ioctl => ∃ code, p = evtIoDeviceControl w.req.fileObject code
  | .power => ∃ cb : PowerCallback, p = cb.code
  | .hardware => (∃ resources, p = do let _ ← evtDevicePrepareHardware resources) ∨
      p = evtDeviceReleaseHardware
  | .create fo => p = evtDeviceFileCreate fo
  | .cleanup fo => p = evtFileCleanup fo

/-- The program is what is left of a call of the thread after its history. -/
def World.InCall (w : World) (t : Tid) (q : Drv Unit) : Prop :=
  ∃ p, w.Call p t ∧ p.Leads (w.hist t) q

theorem World.InCall.congr {w w' : World} {t : Tid} {q : Drv Unit} (h : w.InCall t q)
    (hhist : w'.hist t = w.hist t) (hreq : w'.req.fileObject = w.req.fileObject ∨ t ≠ .ioctl) :
    w'.InCall t q := by
  obtain ⟨p, hcall, hleads⟩ := h
  refine ⟨p, ?_, hhist ▸ hleads⟩
  cases t with
  | ioctl =>
    have hreq : w'.req.fileObject = w.req.fileObject := hreq.resolve_right fun h => h rfl
    rw [World.Call, hreq]
    exact hcall
  | _ => exact hcall

/-- A beginning starts a call with an empty history. -/
theorem begins_inCall {L : Tid → Prop} {t : Tid} {p : Drv Unit} {w w' : World}
    (h : Begins L t p w w') : w'.InCall t p := by
  refine ⟨p, ?_, (begins_hist_self h).symm ▸ .start⟩
  cases h with
  | ioctl r code p => exact ⟨code, rfl⟩
  | power cb p => exact ⟨cb, rfl⟩
  | prepare resources p => exact .inl ⟨resources, rfl⟩
  | release p => exact .inr rfl
  | create fo p => rfl
  | cleanup fo p => rfl

/-- An operation moves its own thread on in its call, and no other. -/
theorem exec_inCall {t u : Tid} {o : Op} {k : o.Ans → Drv Unit} {e : Choice} {w w' : World}
    {x : o.Ans} {q : Drv Unit} (he : w.exec t o e = some (x, w')) (ht : w.InCall t (.vis o k))
    (hu : u ≠ t → w.InCall u q) : w'.InCall u (if u = t then k x else q) := by
  have hf := World.exec_frame he
  split
  · rename_i hut
    subst hut
    obtain ⟨p, hcall, hleads⟩ := ht
    refine ⟨p, ?_, ?_⟩
    · cases u with
      | ioctl =>
        rw [World.Call, hf.fileObject]
        exact hcall
      | _ => exact hcall
    · rw [hf.hist, Function.update_self]
      exact .step x hleads
  · rename_i hut
    refine (hu hut).congr ?_ (.inl hf.fileObject)
    rw [hf.hist, Function.update_of_ne hut]

/-- In every reachable configuration, every live thread is in a call of its own. -/
theorem reach_inCall {allow : Tid → Op → World → Prop} {c : DriverConfig}
    (h : Reach driver allow c) {t : Tid} {q : Drv Unit} (hq : c.pool t = some q) :
    c.world.InCall t q := by
  obtain ⟨w, -, hr⟩ := h
  induction hr generalizing t q with
  | refl => cases hq
  | @tail c₁ c₂ _ hs ih =>
    cases hs with
    | @begins u p w' hnone hb =>
      by_cases hut : t = u
      · subst hut
        rw [Config.set_pool_self, Option.some.injEq] at hq
        exact hq ▸ begins_inCall hb
      · rw [c₁.set_pool_ne w' _ hut] at hq
        refine (ih hq).congr ?_ ?_
        · cases hb <;> exact Function.update_of_ne hut _ _
        · by_cases hio : t = .ioctl
          · subst hio
            cases hb with
            | ioctl => exact absurd rfl hut
            | _ => exact .inl rfl
          · exact .inr hio
    | @exec u o k e x w' hpool _ he =>
      by_cases hut : t = u
      · subst hut
        rw [Config.set_pool_self, Option.some.injEq] at hq
        have hcall := exec_inCall (u := t) (q := q) he (ih hpool) fun hne => absurd rfl hne
        rw [if_pos rfl] at hcall
        exact hq ▸ hcall
      · rw [c₁.set_pool_ne w' _ hut] at hq
        have hcall := exec_inCall (u := t) he (ih hpool) fun _ => ih hq
        rwa [if_neg hut] at hcall
    | @ends u w' hpool he =>
      have hut : t ≠ u := by
        rintro rfl
        rw [Config.set_pool_self] at hq
        cases hq
      rw [c₁.set_pool_ne w' _ hut] at hq
      obtain rfl : w' = c₁.world.leave u := he
      refine (ih hq).congr ?_ (.inl ?_) <;> cases u <;> rfl
    | env he =>
      refine (ih hq).congr ?_ (.inl ?_) <;> cases he <;> rfl

/-- In every reachable configuration, the history of a thread without a call is that of its last one. -/
theorem reach_past {allow : Tid → Op → World → Prop} {c : DriverConfig} (h : Reach driver allow c) {t : Tid}
    (ht : c.pool t = none) :
    c.world.hist t = [] ∨ ∃ (w : World) (p : Drv Unit), w.Call p t ∧ p.Leads (c.world.hist t) (.pure ()) := by
  obtain ⟨w, hw, hr⟩ := h
  induction hr with
  | refl =>
    obtain ⟨buffer, rfl⟩ := hw
    exact .inl rfl
  | @tail c₁ c₂ hrun hs ih =>
    have hreach : Reach driver allow c₁ := ⟨w, hw, hrun⟩
    have hother : ∀ {u : Tid} {w' : World} {q : Option (Drv Unit)}, (c₁.set w' u q).pool t = none → t ≠ u →
        c₁.pool t = none := fun hnone hne => (c₁.set_pool_ne _ _ hne).symm.trans hnone
    cases hs with
    | @begins u p w' _ hb =>
      by_cases htu : t = u
      · subst htu
        rw [Config.set_pool_self] at ht
        cases ht
      · rw [Config.set_world, begins_hist hb htu]
        exact ih (hother ht htu)
    | @exec u o k e x w' _ _ he =>
      by_cases htu : t = u
      · subst htu
        rw [Config.set_pool_self] at ht
        cases ht
      · rw [Config.set_world, (World.exec_frame he).hist, Function.update_of_ne htu]
        exact ih (hother ht htu)
    | @ends u w' hpool he =>
      obtain rfl : w' = c₁.world.leave u := he
      have hhist : (c₁.world.leave u).hist = c₁.world.hist := by cases u <;> rfl
      rw [Config.set_world, hhist]
      by_cases htu : t = u
      · subst htu
        obtain ⟨p, hcall, hleads⟩ := reach_inCall hreach hpool
        exact .inr ⟨_, p, hcall, hleads⟩
      · exact ih (hother ht htu)
    | @env w' he =>
      have hhist : w'.hist = c₁.world.hist := by cases he <;> rfl
      show w'.hist t = [] ∨ _
      rw [hhist]
      exact ih ht

/-- Every run of the watched driver is one of the driver. -/
theorem reach_unwatched {G : Type} {O : Observer DriverSig Tid World G}
    {allow : Tid → Op → World × G → Prop} {c : WatchedConfig G}
    (h : Reach (driver.observe O) allow c) : Reach driver anyStep c.forget :=
  h.forget fun _ _ _ _ => trivial

end TtWind
