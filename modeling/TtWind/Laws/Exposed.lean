import TtWind.Laws.Isolation
import TtWind.Laws.Mapped

/-!
# The windows that running processes see

A process that runs sees what its views show, and a view goes with its record. Where no call has the
record in hand, it is listed, and the windows it shows are user windows of its handle, as long as
MAP_BAR and FREE_TLB keep off the windows of others. While a call has the record, nothing is said here:
the sweep of a cleanup frees a handle's windows at once, and unmaps their views after it.
-/

set_option autoImplicit false

namespace TtWind

open TtWind.Effect TtWind.Effect.Prog

/-- The view shows window `i`. -/
def View.Meets (v : View) (bar0 : Bar) (i : Nat) : Prop := ∃ pfns, v.span.frames = some pfns ∧ PagesMeet pfns bar0 i

instance (v : View) (bar0 : Bar) (i : Nat) : Decidable (v.Meets bar0 i) :=
  decidable_of_iff (v.span.frames.any fun pfns => PagesMeet pfns bar0 i) (by simp [View.Meets, Option.any_eq_true])

/-- A view in a process that runs, with its record in no thread's hands, is that of a listed record, and what it
shows of the windows are user windows that the record's handle owns. -/
def World.Isolated (w : World) : Prop :=
  ∀ v, w.Shown v → (∀ t, ¬ w.Has t v.addr) → ∃ m ∈ w.ctx.mappingList, m.addr = v.addr ∧ m.Shows v ∧
    ∀ i < tlb2mCount, v.Meets (w.ctx.bars 0) i → i ≠ kernelTlbIndex ∧ w.ctx.tlbOwner i = some m.fileObject

/-- A view that shows what its record tells shows the windows that the record does. -/
theorem meets_of_showing {m : UserMapping} {v : View} {bar0 : Bar} {i : Nat} (hsame : v.showing = m.showing)
    (h : v.Meets bar0 i) : m.Meets bar0 i := by
  obtain ⟨pfns, hpfns, hmeets⟩ := h
  have hframes : m.frames = some pfns := (congrArg Showing.frames hsame).symm.trans hpfns
  unfold UserMapping.frames at hframes
  split at hframes
  · cases hmdl : m.mdl with
    | none =>
      simp only [hmdl, Option.map_none, Option.getD_none, Option.some.injEq] at hframes
      subst hframes
      obtain ⟨pfn, hpfn, -⟩ := hmeets
      cases hpfn
    | some mdl =>
      simp only [hmdl, Option.map_some, Option.getD_some, Option.some.injEq] at hframes
      subst hframes
      exact ⟨mdl, hmdl, hmeets⟩
  · cases hframes

/-- Where no thread has the record of a view shown, it is listed. -/
theorem ViewsInv.exists_listed {L : Tid → Prop} {w : World} (h : ViewsInv L w) {v : View} (hv : w.Shown v)
    (hfree : ∀ t, ¬ w.Has t v.addr) : ∃ m ∈ w.ctx.mappingList, m.addr = v.addr := by
  obtain ⟨pl, hpl⟩ := Option.ne_none_iff_exists'.mp (h.placed v hv)
  cases pl with
  | building t => exact absurd ⟨_, hpl, rfl⟩ (hfree t)
  | detached t => exact absurd ⟨_, hpl, rfl⟩ (hfree t)
  | listed => exact List.mem_map.mp ((h.listed v.addr).mp hpl)

/-- The view of a listed record shows what the record tells. -/
theorem World.Displayed.showing_eq {w : World} {L : Tid → Prop} (hd : w.Displayed) (hinv : ViewsInv L w) {v : View}
    {m : UserMapping} (hv : w.Shown v) (hm : m ∈ w.ctx.mappingList) (haddr : v.addr = m.addr) :
    v.showing = m.showing := by
  obtain ⟨hp, hva, -⟩ := hinv.shows m hm v hv haddr
  obtain ⟨v', hv', hshow⟩ := hd.told none m.showing ⟨m, hm, rfl⟩ (show w.procs m.process = .running from hp ▸ hv.2)
  have hsame : v = v' := by
    apply hd.apart v hv.1 v' hv'
    · exact hp.trans (congrArg Showing.process hshow).symm
    · exact hva.trans (congrArg Showing.va hshow).symm
  rw [hsame, hshow]

/-- In every run in which MAP_BAR and FREE_TLB keep off, the windows that a listed mapping shows, and those that
running processes see through views no call has in hand, are user windows of the mapping's handle. -/
theorem windows_isolated {c : DriverConfig} (h : Reach driver keepsApart c) :
    c.world.ctx.Isolated ∧ c.world.Isolated := by
  have hlisted := reach_isolated h
  have hinv : ViewsInv c.live c.world := (views_sound.good h.any).inv
  refine ⟨hlisted, fun v hv hfree => ?_⟩
  obtain ⟨m, hm, haddr⟩ := hinv.exists_listed hv hfree
  have hsame := (reach_displayed h.any).showing_eq hinv hv hm haddr.symm
  refine ⟨m, hm, haddr, hinv.shows m hm v hv haddr.symm, fun i hi hmeets => ?_⟩
  exact hlisted m hm i hi (meets_of_showing hsame hmeets)

/-- MAP_TLB by handle 1 of window 0. -/
def mapTlbRequest : Request := { fileObject := some 1, requestor := some 1, inLen := 8, outLen := 8 }

/-- Handle 1 allocates window 0 and maps it. -/
def mapsWindow : List Move :=
  cardArrives 0x10000000 ++ opens 1 1 ++
    [.ioctl allocateRequest .allocateTlb 1, .ops .ioctl (plainOps 10), .ends .ioctl,
      .ioctl mapTlbRequest .mapTlb 1,
      .ops .ioctl (plainOps 10 ++ [.address 0x100] ++ plainOps 3 ++ [.address 0x20000] ++ plainOps 4), .ends .ioctl]

/-- Only MAP_TLB lists records, for a page aligned BAR 0, and no window is freed. -/
def keepsApartTest (_ : Tid) (o : Op) (w : World) : Bool :=
  match o with
  | .locked (.insertMapping m) => 0 ≤ m.tlbId && (w.ctx.bars 0).phys.toNat % 4096 == 0
  | .locked (.freeTlb _ _) => false
  | _ => true

theorem keepsApartTest_implies : DriverConfig.Implies keepsApartTest keepsApart := by
  intro t o w h
  cases o with
  | locked s =>
    cases s with
    | insertMapping m =>
      simp only [keepsApartTest, Bool.and_eq_true, decide_eq_true_eq, beq_iff_eq] at h
      simp only [keepsApart, if_pos h.1]
      exact h.2
    | freeTlb fo id => cases h
    | _ => trivial
  | _ => trivial

/-- Process 1 sees window 0 through handle 1, which owns it. -/
theorem windows_isolated_maps_window : ∃ c : DriverConfig, Reach driver keepsApart c ∧
    (∃ v, c.world.Shown v ∧ (∀ t, ¬ c.world.Has t v.addr) ∧ v.Meets (c.world.ctx.bars 0) 0) ∧
      c.world.ctx.Isolated ∧ c.world.Isolated := by
  have hplay : (DriverConfig.play keepsApartTest mapsWindow idle).any (fun c =>
      c.world.views.any fun v => c.world.procs v.process == .running && c.world.pool v.addr == some .listed &&
        v.Meets (c.world.ctx.bars 0) 0) = true := by decide +kernel
  obtain ⟨c, hreach, hend⟩ := DriverConfig.exists_reach keepsApartTest_implies hplay
  simp only [List.any_eq_true, Bool.and_eq_true, beq_iff_eq, decide_eq_true_eq] at hend
  obtain ⟨v, hv, ⟨hrun, hlisted⟩, hmeets⟩ := hend
  exact ⟨c, hreach, ⟨v, ⟨hv, hrun⟩, fun _ => World.not_has_of_listed hlisted, hmeets⟩, windows_isolated hreach⟩

/-- MAP_BAR by handle 1 of the first page of the kernel window. -/
def mapKernelWindowRequest : Request :=
  { mapRequest with inBuf := fun i => if i = 10 then 0x20 else if i = 11 then 0x19 else if i = 17 then 0x10 else 0 }

def mapsKernelWindow : List Move :=
  cardArrives 0x10000000 ++ opens 1 1 ++
    [.ioctl mapKernelWindowRequest .mapBar 1,
      .ops .ioctl (plainOps 11 ++ [.address 0x100] ++ plainOps 3 ++ [.address 0x20000] ++ plainOps 6),
      .ends .ioctl]

/-- MAP_BAR shows the kernel window to whoever asks. -/
theorem not_isolated : ¬ ∀ c : DriverConfig, Reach driver anyStep c → c.world.ctx.Isolated ∧ c.world.Isolated := by
  intro hall
  have hplay : (DriverConfig.play (fun _ _ _ => true) mapsKernelWindow idle).any (fun c =>
      c.world.ctx.mappingList.any fun m => m.Meets (c.world.ctx.bars 0) kernelTlbIndex) = true := by decide +kernel
  obtain ⟨c, hreach, hend⟩ := DriverConfig.exists_reach (DriverConfig.implies_anyStep _) hplay
  obtain ⟨m, hm, hmeets⟩ : ∃ m ∈ c.world.ctx.mappingList, m.Meets (c.world.ctx.bars 0) kernelTlbIndex := by
    simpa using hend
  exact ((hall c hreach).1 m hm kernelTlbIndex (by decide) hmeets).1 rfl

end TtWind
