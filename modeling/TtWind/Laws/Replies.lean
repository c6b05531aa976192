import TtWind.Laws.Calls
import TtWind.Laws.Discipline
import TtWind.Laws.Solo

/-!
# What a request has written

Only the thread of a request writes its output buffer, and its history lists what it wrote: the
bytes of a reply are those its buffer began with, under the writes of the history. So a reply is
read off the program that wrote it, at every interleaving.
-/

set_option autoImplicit false

namespace TtWind

open TtWind.Effect TtWind.Effect.Prog

/-- A buffer after one operation of the request that owns it. -/
def Op.overwrite : Op → (Nat → UInt8) → Nat → UInt8
  | .outZero len, b => fun i => if i < len then 0 else b i
  | .outField off len v, b => leStore b off len v
  | _, b => b

/-- A buffer after the operations of a history, latest first. -/
def written (b : Nat → UInt8) : List Event → Nat → UInt8
  | [] => b
  | ev :: evs => ev.1.overwrite (written b evs)

theorem exec_output {t : Tid} {o : Op} {e : Choice} {w w' : World} {x : o.Ans}
    (he : w.exec t o e = some (x, w')) : w'.req.output = o.overwrite w.req.output := by
  have hf := World.exec_frame he
  by_cases ho : o.writesRequest
  · obtain ⟨w₁, hs, rfl⟩ := World.exec_step he
    cases o with
    | outZero len =>
      obtain ⟨-, rfl⟩ := Prod.mk.inj (Option.some.inj hs)
      exact Request.output_write _ _
    | outField off len v =>
      obtain ⟨-, rfl⟩ := Prod.mk.inj (Option.some.inj hs)
      exact Request.output_write _ _
    | _ => exact ho.elim
  · rw [hf.req ho]
    cases o <;> first | rfl | exact absurd trivial ho

/-- No call but a request's writes a request. -/
theorem call_leavesRequest {w : World} {p : Drv Unit} {t : Tid} (h : w.Call p t) (hio : t ≠ .ioctl)
    (hhw : t ≠ .hardware) : p.Only fun o : Op => ¬ o.writesRequest := by
  cases t with
  | ioctl => exact absurd rfl hio
  | hardware => exact absurd rfl hhw
  | power =>
    obtain ⟨cb, rfl⟩ := h
    refine (power_only cb).mono fun o ho => ?_
    cases o <;> first | exact (ho : False).elim | exact id
  | create fo =>
    obtain rfl : p = evtDeviceFileCreate fo := h
    exact ⟨id, fun _ _ => ⟨id, fun _ _ => (within_perform _).mpr id⟩⟩
  | cleanup fo =>
    obtain rfl : p = evtFileCleanup fo := h
    exact ⟨id, fun ms _ => destroyAll_only ⟨id, fun _ => id, fun _ => id, fun _ => id, fun _ => id,
      fun _ _ => id, fun _ => id, fun _ => id, fun _ => id⟩ ms⟩

/-- In every run, a live request's output buffer is what the request has written over what it
began with. -/
theorem reach_written {c : DriverConfig} (h : Reach driver anyStep c) (hl : c.live .ioctl) :
    ∃ b, c.world.req.output = written b (c.world.hist .ioctl) := by
  obtain ⟨w, hw, hr⟩ := h
  induction hr with
  | refl => exact absurd rfl hl
  | @tail c c' hrun hs ih =>
    have hreach : Reach driver anyStep c := ⟨w, hw, hrun⟩
    -- what neither brings a request nor runs one leaves the request and its history
    have hsame : c.live .ioctl → c'.world.req = c.world.req →
        c'.world.hist .ioctl = c.world.hist .ioctl →
        ∃ b, c'.world.req.output = written b (c'.world.hist .ioctl) := by
      intro hbefore hreq hhist
      rw [hreq, hhist]
      exact ih hbefore
    have hlive : ∀ {t : Tid} {w' : World} {q : Option (Drv Unit)}, t ≠ .ioctl →
        (c.set w' t q).live .ioctl → c.live .ioctl := fun ht hl =>
      (c.set_live_ne _ _ (Ne.symm ht)) ▸ hl
    cases hs with
    | @begins t p w' hnone hb =>
      by_cases ht : t = .ioctl
      · subst ht
        exact ⟨w'.req.output, congrArg (written _) (begins_hist_self hb).symm⟩
      · exact hsame (hlive ht hl) (begins_req hb ht) (begins_hist hb (Ne.symm ht))
    | @exec t o k e x w' hpool _ he =>
      have hf := World.exec_frame he
      by_cases ht : t = .ioctl
      · subst ht
        obtain ⟨b, hb⟩ := ih (Protocol.Sound.live_of_pool hpool)
        refine ⟨b, ?_⟩
        rw [Config.set_world, exec_output he, hb, hf.hist, Function.update_self]
        rfl
      · have hbefore : c.live .ioctl := hlive ht hl
        have hhw : t ≠ .hardware := by
          rintro rfl
          exact ((reach_mmioInv hreach).alone (Protocol.Sound.live_of_pool hpool)).1 hbefore
        obtain ⟨p, hcall, hleads⟩ := reach_inCall hreach hpool
        have hleaves := (hleads.only (call_leavesRequest hcall ht hhw)).1.1
        exact hsame hbefore (hf.req hleaves) (by rw [Config.set_world, hf.hist, Function.update_of_ne (Ne.symm ht)])
    | @ends t w' hpool he =>
      have ht : t ≠ .ioctl := by
        rintro rfl
        exact hl (Config.set_pool_self _ _ _ _)
      obtain rfl : w' = c.world.leave t := he
      refine hsame (hlive ht hl) ?_ ?_ <;> cases t <;> rfl
    | env he => refine hsame hl ?_ ?_ <;> cases he <;> rfl

end TtWind
