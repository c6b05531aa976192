import TtWind.Laws.Frame
import TtWind.Laws.Programs
import TtWind.Laws.Sections

/-!
# User views and the records that answer for them

The driver can unmap a user view only through the record it was made for, so a
view is under control as long as its record is somewhere: with the thread that
builds it, on the mapping list, or with the thread that took it off the list to
destroy it. `ViewsInv` says that every view in a running process has such a
record. `Owns` says which records a thread has, and what their views look like;
a thread frees a record only when nothing is shown under its address any more.

Views in a process that has begun to terminate are outside this account:
`TtWindDestroyMapping` deliberately leaves them to the memory manager.
-/

set_option autoImplicit false

namespace TtWind

open TtWind.Effect TtWind.Effect.Prog TtWind.Effect.Protocol

namespace Place

/-- The thread that has the record. -/
def owner : Place → Option Tid
  | building t | detached t => some t
  | listed => none

/-- Only requests build records, and only three kinds of thread take them off the list. -/
def Proper : Place → Prop
  | building t => t = .ioctl
  | listed => True
  | detached t => t = .ioctl ∨ t = .hardware ∨ ∃ fo, t = .cleanup fo

end Place

namespace World

/-- The thread has the record at this address. -/
def Has (w : World) (t : Tid) (a : Nat) : Prop := ∃ pl, w.pool a = some pl ∧ pl.owner = some t

/-- The view exists in a process that has not begun to terminate. -/
def Shown (w : World) (v : View) : Prop := v ∈ w.views ∧ w.procs v.process = .running

/-- No record is listed, and the thread has none. -/
structure Emptied (w : World) (t : Tid) : Prop where
  unlisted : w.ctx.mappingList = []
  none : ∀ a, ¬ w.Has t a

theorem has_congr {w w' : World} (h : w'.pool = w.pool) (t : Tid) (a : Nat) :
    w'.Has t a ↔ w.Has t a := by
  rw [Has, Has, h]

theorem Has.unique {w : World} {t u : Tid} {a : Nat} (ht : w.Has t a) (hu : w.Has u a) : t = u := by
  obtain ⟨pl, hpl, ht⟩ := ht
  obtain ⟨pl', hpl', hu⟩ := hu
  obtain rfl := Option.some.inj (hpl.symm.trans hpl')
  exact Option.some.inj (ht.symm.trans hu)

theorem not_has_of_listed {w : World} {t : Tid} {a : Nat} (h : w.pool a = some .listed) :
    ¬ w.Has t a := by
  rintro ⟨pl, hpl, hown⟩
  obtain rfl := Option.some.inj (h.symm.trans hpl)
  cases hown

end World

namespace UserMapping

/-- The address its view is unmapped at. -/
def viewVa (m : UserMapping) : UInt64 :=
  match m.kind with
  | .mdl => m.userVa
  | .sectionView => m.sectionBase

/-- Is its view one of device memory? -/
def isDevice (m : UserMapping) : Bool :=
  match m.kind with
  | .mdl => true
  | .sectionView => false

/-- The view is where the record says. -/
def Shows (m : UserMapping) (v : View) : Prop :=
  v.process = m.process ∧ v.va = m.viewVa ∧ v.isDevice = m.isDevice

end UserMapping

/-- A record in a thread's hands: its address, and what a view of it looks like. -/
abbrev Charge := Nat × (View → Prop)

/-- The charge of a finished record. -/
def UserMapping.charge (m : UserMapping) : Charge := (m.addr, m.Shows)

/-- The charge of a record that has no view. -/
def bare (a : Nat) : Charge := (a, fun _ => False)

/-- The records a thread has are exactly these. -/
structure Owns (t : Tid) (cs : List Charge) (w : World) : Prop where
  has : ∀ a, w.Has t a ↔ a ∈ cs.map Prod.fst
  nodup : (cs.map Prod.fst).Nodup
  shows : ∀ c ∈ cs, ∀ v, w.Shown v → v.addr = c.1 → c.2 v

/-- Every view shown has a record, and every record has a place. -/
structure ViewsInv (L : Tid → Prop) (w : World) : Prop where
  apart : ¬ (L .ioctl ∧ L .hardware)
  placed : ∀ v, w.Shown v → w.pool v.addr ≠ none
  proper : ∀ a pl, w.pool a = some pl → pl.Proper ∧ ∀ t, pl.owner = some t → L t
  listed : ∀ a, w.pool a = some .listed ↔ a ∈ w.ctx.mappingList.map (·.addr)
  nodup : (w.ctx.mappingList.map (·.addr)).Nodup
  shows : ∀ m ∈ w.ctx.mappingList, ∀ v, w.Shown v → v.addr = m.addr → m.Shows v

/-- What a thread relies on. Requests and the hardware callbacks also rely on the list
not growing, and requests on the restriction staying as it is. -/
structure Untouched (t : Tid) (w w' : World) : Prop where
  curProc : w'.curProc t = w.curProc t
  procs : ∀ p, w'.procs p = .running → w.procs p = .running
  has : ∀ a, w'.Has t a ↔ w.Has t a
  shown : ∀ v, w.Has t v.addr → w'.Shown v → w.Shown v
  list : t = .ioctl ∨ t = .hardware → w'.ctx.mappingList ⊆ w.ctx.mappingList
  needs : t = .ioctl → w'.ctx.needsHwInit = w.ctx.needsHwInit
  started : t = .hardware → w'.started = w.started

theorem Untouched.refl (t : Tid) (w : World) : Untouched t w w :=
  ⟨rfl, fun _ h => h, fun _ => Iff.rfl, fun _ _ h => h, fun _ => List.Subset.refl _, fun _ => rfl,
    fun _ => rfl⟩

theorem Untouched.trans {t : Tid} {u v w : World} (h₁ : Untouched t u v) (h₂ : Untouched t v w) :
    Untouched t u w where
  curProc := h₂.curProc.trans h₁.curProc
  procs p hp := h₁.procs p (h₂.procs p hp)
  has a := (h₂.has a).trans (h₁.has a)
  shown x hx hw := h₁.shown x hx (h₂.shown x ((h₁.has _).mpr hx) hw)
  list ht := List.Subset.trans (h₂.list ht) (h₁.list ht)
  needs ht := (h₂.needs ht).trans (h₁.needs ht)
  started ht := (h₂.started ht).trans (h₁.started ht)

/-- Different threads that can both be live: requests wait for the hardware callbacks. -/
def Apart (t u : Tid) : Prop :=
  u ≠ t ∧ ¬ (t = .ioctl ∧ u = .hardware) ∧ ¬ (t = .hardware ∧ u = .ioctl)

/-- The operations of `TtWindRevokeAllMappings`. -/
def Op.ofRevocation : Op → Prop
  | .locked s => s = .sweepAll
  | .currentProcess | .exitPending _ | .attach _ | .detach _ | .unmapView _
  | .unmapLockedPages _ _ | .freeMdl _ | .dereferenceProcess _ | .freePool _ => True
  | _ => False

/-- When a thread may do what: device views are made only while no reset is in flight,
the reset trigger is written only with the device restricted and nothing listed, and
ReleaseHardware goes on after its revocation only when nothing is listed. -/
structure MayDo (t : Tid) (o : Op) (w : World) : Prop where
  maps : ∀ m wc a, o = .mapLockedPages m wc a → w.ctx.needsHwInit = false
  triggers : ∀ data, o = .setBusData ifcTimerControlOff data →
    t = .ioctl ∧ w.Emptied .ioctl ∧ w.ctx.needsHwInit = true
  revoked : t = .hardware → w.started = false → ¬ o.ofRevocation → w.Emptied .hardware

/-- Views and their records. A call ends with no record in its thread's hands. -/
def views : Protocol DriverSig Tid World where
  inv := ViewsInv
  rely := Untouched
  guar t w w' := ∀ u, Apart t u → Untouched u w w'
  pre := MayDo
  post t w := Owns t [] w ∧ (t = .hardware → w.started = false → w.ctx.mappingList = [])

theorem views_steady : views.Steady where
  refl := Untouched.refl
  trans _ _ _ _ := Untouched.trans

theorem stable_owns (t : Tid) (cs : List Charge) : views.Stable t (Owns t cs) := by
  intro w w' hr h
  have hr : Untouched t w w' := hr
  refine ⟨fun a => (hr.has a).trans (h.has a), h.nodup, fun c hc v hv ha => ?_⟩
  have hhas : w.Has t v.addr := by
    rw [h.has, ha]
    exact List.mem_map_of_mem hc
  exact h.shows c hc v (hr.shown v hhas hv) ha

theorem Owns.none {t : Tid} {w : World} (h : Owns t [] w) (a : Nat) : ¬ w.Has t a := by
  rw [h.has]
  simp

theorem owns_nil {t : Tid} {w : World} (h : ∀ a, ¬ w.Has t a) : Owns t [] w :=
  ⟨fun a => by simp [h a], List.nodup_nil, fun _ hc => absurd hc (by simp)⟩

/-- A thread that is not live has no records. -/
theorem ViewsInv.owns_nil {L : Tid → Prop} {w : World} (h : ViewsInv L w) {t : Tid}
    (hnl : ¬ L t) : Owns t [] w := by
  refine TtWind.owns_nil fun a ⟨pl, hpl, hown⟩ => ?_
  exact hnl ((h.proper a pl hpl).2 t hown)

/-! ## Operations that leave records where they are -/

variable {t : Tid} {o : Op} {e : Choice} {w w' : World} {x : o.Ans} {L : Tid → Prop}

/-- The operation keeps the restriction, or is one of a request or a hardware callback. -/
def Op.NeedsOf (t : Tid) (o : Op) : Prop :=
  t = .ioctl ∨ t = .hardware ∨ ∀ c, (o.effect c).needsHwInit = c.needsHwInit

theorem needsOf_locked (t : Tid) (s : Section) : (Op.locked s).NeedsOf t :=
  .inr (.inr fun c => by rw [Op.effect, Section.run_frame])

theorem exec_needs (ho : o.NeedsOf t) (he : w.exec t o e = some (x, w')) (ha : Apart t .ioctl) :
    w'.ctx.needsHwInit = w.ctx.needsHwInit := by
  rw [(World.exec_frame he).ctx]
  rcases ho with rfl | rfl | ho
  · exact absurd rfl ha.1
  · exact absurd ⟨rfl, rfl⟩ ha.2.2
  · exact ho w.ctx

/-- What a step guarantees the others: it moves no record of theirs, shows views only for
the thread's own, and lets the list grow only for a request. -/
theorem exec_guar_views (he : w.exec t o e = some (x, w')) (ho : o.NeedsOf t)
    (hhas : ∀ u, u ≠ t → ∀ a, w'.Has u a ↔ w.Has u a)
    (hshown : ∀ v, w'.Shown v → w.Shown v ∨ w.Has t v.addr)
    (hlist : t = .ioctl ∨ w'.ctx.mappingList ⊆ w.ctx.mappingList) : views.guar t w w' := by
  intro u hu
  have hf := World.exec_frame he
  exact {
    curProc := hf.others u hu.1
    procs := fun p hp => by rwa [hf.procs] at hp
    has := hhas u hu.1
    shown := fun v hhas hv => (hshown v hv).resolve_right fun ht => hu.1 (hhas.unique ht)
    list := fun hio => by
      rcases hlist with rfl | hlist
      · rcases hio with rfl | rfl
        · exact absurd rfl hu.1
        · exact absurd ⟨rfl, rfl⟩ hu.2.1
      · exact hlist
    needs := fun hio => exec_needs ho he (hio ▸ hu)
    started := fun _ => hf.started }

/-- A step that moves no record and shows no more than before. -/
theorem exec_unmoved (he : w.exec t o e = some (x, w')) (ho : o.NeedsOf t) (hinv : ViewsInv L w)
    (hpool : w'.pool = w.pool) (hlist : w'.ctx.mappingList = w.ctx.mappingList)
    (hshown : ∀ v, w'.Shown v → w.Shown v) :
    ViewsInv L w' ∧ views.guar t w w' ∧ ∀ cs, Owns t cs w → Owns t cs w' := by
  have hhas : ∀ u a, w'.Has u a ↔ w.Has u a := fun u a => World.has_congr hpool u a
  refine ⟨?_, ?_, fun cs h => ?_⟩
  · exact {
      apart := hinv.apart
      placed := fun v hv => by
        rw [hpool]
        exact hinv.placed v (hshown v hv)
      proper := by
        rw [hpool]
        exact hinv.proper
      listed := by
        rw [hpool, hlist]
        exact hinv.listed
      nodup := by
        rw [hlist]
        exact hinv.nodup
      shows := fun m hm v hv => by
        rw [hlist] at hm
        exact hinv.shows m hm v (hshown v hv) }
  · apply exec_guar_views he ho (fun u _ => hhas u) (fun v hv => .inl (hshown v hv))
    rw [hlist]
    exact .inr (List.Subset.refl _)
  · exact ⟨fun a => (hhas t a).trans (h.has a), h.nodup,
      fun c hc v hv => h.shows c hc v (hshown v hv)⟩

theorem shown_of_views (he : w.exec t o e = some (x, w')) (hv : w'.views ⊆ w.views) (v : View)
    (h : w'.Shown v) : w.Shown v := by
  refine ⟨hv h.1, ?_⟩
  rw [← (World.exec_frame he).procs]
  exact h.2

/-- Sections that neither list a record nor take one off. -/
def Section.LeavesList : Section → Prop
  | .anyMapping | .fence | .allocateTlb _ | .freeTlb _ _ | .checkTlbOwner _ _ => True
  | _ => False

/-- Operations that leave records and views alone, and need no care otherwise. -/
def Op.LeavesViews : Op → Prop
  | .locked s => s.LeavesList
  | .store f => TableFrame f
  | .setBusData off _ => off ≠ ifcTimerControlOff
  | .allocPool | .freePool _ | .mapLockedPages _ _ _ | .unmapLockedPages _ _ | .mapView _ _ _
  | .unmapView _ => False
  | _ => True

theorem leavesViews_of_plain (h : o.plain) : o.LeavesViews := by
  cases o <;> trivial

theorem Section.LeavesList.list {s : Section} (h : s.LeavesList) (c : DeviceContext) :
    (s.run c).2.mappingList = c.mappingList := by
  cases s with
  | allocateTlb fo =>
    simp only [Section.run]
    split <;> rfl
  | freeTlb fo i =>
    simp only [Section.run]
    split
    · rfl
    · split <;> rfl
  | anyMapping => rfl
  | fence => rfl
  | checkTlbOwner fo i => rfl
  | _ => exact (h : False).elim

theorem Section.LeavesList.places {s : Section} (h : s.LeavesList) (t : Tid) (a : s.Ans)
    (pool : Nat → Option Place) : s.places t a pool = pool := by
  cases s <;> first | rfl | exact (h : False).elim

/-- What a section does to the pool. -/
theorem exec_locked {s : Section} {x : s.Ans} (he : w.exec t (.locked s) e = some (x, w')) :
    x = (s.run w.ctx).1 ∧ w'.pool = s.places t x w.pool ∧ w'.views = w.views := by
  obtain ⟨w₁, hs, rfl⟩ := World.exec_step he
  simp only [World.step, Option.ite_none_right_eq_some, Option.some.injEq, Prod.mk.injEq] at hs
  obtain ⟨-, rfl, rfl⟩ := hs
  exact ⟨rfl, rfl, rfl⟩

theorem Op.LeavesViews.still (ho : o.LeavesViews) (he : w.exec t o e = some (x, w')) :
    w'.pool = w.pool ∧ w'.ctx.mappingList = w.ctx.mappingList ∧ w'.views = w.views := by
  have hf := World.exec_frame he
  cases o with
  | locked s =>
    obtain ⟨-, hpool, hviews⟩ := exec_locked he
    refine ⟨hpool.trans (Section.LeavesList.places ho t x w.pool), ?_, hviews⟩
    rw [hf.ctx]
    exact Section.LeavesList.list ho w.ctx
  | store f =>
    refine ⟨hf.pool id, ?_, hf.views id⟩
    rw [hf.ctx]
    exact (ho w.ctx).1
  | allocPool => exact ho.elim
  | freePool a => exact ho.elim
  | mapLockedPages m wc a => exact ho.elim
  | unmapLockedPages va m => exact ho.elim
  | mapView off size a => exact ho.elim
  | unmapView base => exact ho.elim
  | _ => exact ⟨hf.pool id, by rw [hf.ctx]; rfl, hf.views id⟩

/-- An operation that leaves records and views alone. -/
theorem exec_leavesViews (ho : o.LeavesViews) (hn : o.NeedsOf t)
    (he : w.exec t o e = some (x, w')) (hinv : ViewsInv L w) :
    ViewsInv L w' ∧ views.guar t w w' ∧ ∀ cs, Owns t cs w → Owns t cs w' := by
  obtain ⟨hpool, hlist, hviews⟩ := ho.still he
  exact exec_unmoved he hn hinv hpool hlist (shown_of_views he (hviews ▸ List.Subset.refl _))

/-! ## Unmapping -/

/-- After an unmap nothing of that kind is shown at the address in the current process. -/
theorem exec_unmapLockedPages {va : UInt64} {m : Option Mdl} {x : Unit}
    (he : w.exec t (.unmapLockedPages va m) e = some (x, w')) :
    ∀ v ∈ w'.views, v ∈ w.views ∧ ¬ (v.process = w.curProc t ∧ v.va = va ∧ v.isDevice = true) := by
  obtain ⟨w₁, hs, rfl⟩ := World.exec_step he
  obtain ⟨-, rfl⟩ := Prod.mk.inj (Option.some.inj hs)
  intro v hv
  obtain ⟨hmem, hne⟩ := List.mem_filter.mp hv
  refine ⟨hmem, fun ⟨hp, hva, hd⟩ => ?_⟩
  simp [hp, hva, hd] at hne

theorem exec_unmapView {base : UInt64} {x : NtStatus}
    (he : w.exec t (.unmapView base) e = some (x, w')) :
    ∀ v ∈ w'.views, v ∈ w.views ∧
      ¬ (v.process = w.curProc t ∧ v.va = base ∧ v.isDevice = false) := by
  obtain ⟨w₁, hs, rfl⟩ := World.exec_step he
  simp only [World.step] at hs
  split at hs
  · obtain ⟨-, rfl⟩ := Prod.mk.inj (Option.some.inj hs)
    intro v hv
    obtain ⟨hmem, hne⟩ := List.mem_filter.mp hv
    refine ⟨hmem, ?_⟩
    rintro ⟨hp, hva, hd⟩
    simp [hp, hva, hd] at hne
  · rename_i hnone
    obtain ⟨-, rfl⟩ := Prod.mk.inj (Option.some.inj hs)
    intro v hv
    refine ⟨hv, ?_⟩
    rintro ⟨hp, hva, hd⟩
    apply hnone
    rw [List.any_eq_true]
    exact ⟨v, hv, by simp [hp, hva, hd]⟩

/-- A charge may be replaced by one that still covers what is shown. -/
theorem Owns.replace {a : Nat} {S S' : View → Prop} {cs : List Charge}
    (h : Owns t ((a, S) :: cs) w) (hS : ∀ v, w.Shown v → v.addr = a → S v → S' v) :
    Owns t ((a, S') :: cs) w := by
  refine ⟨h.has, h.nodup, fun c hc v hv ha => ?_⟩
  rcases List.mem_cons.mp hc with rfl | hc
  · exact hS v hv ha (h.shows _ List.mem_cons_self v hv ha)
  · exact h.shows c (List.mem_cons_of_mem _ hc) v hv ha

theorem Owns.head {a : Nat} {S : View → Prop} {cs : List Charge} (h : Owns t ((a, S) :: cs) w) :
    w.Has t a := (h.has a).mpr List.mem_cons_self

/-! ## Records come and go -/

/-- A thread frees a record under whose address nothing is shown. -/
theorem exec_freePool {a : Nat} {cs : List Charge} {x : Unit}
    (he : w.exec t (.freePool a) e = some (x, w')) (hinv : ViewsInv L w)
    (h : Owns t (bare a :: cs) w) :
    ViewsInv L w' ∧ views.guar t w w' ∧ Owns t cs w' := by
  have hf := World.exec_frame he
  have hctx : w'.ctx = w.ctx := hf.ctx
  have hviews : w'.views = w.views := hf.views id
  have hpool : w'.pool = Function.update w.pool a none := by
    obtain ⟨w₁, hs, rfl⟩ := World.exec_step he
    obtain ⟨-, rfl⟩ := Prod.mk.inj (Option.some.inj hs)
    rfl
  have hshown : ∀ v, w'.Shown v → w.Shown v := shown_of_views he (hviews ▸ List.Subset.refl _)
  have hself : w'.pool a = none := by rw [hpool, Function.update_self]
  have hother : ∀ b, b ≠ a → w'.pool b = w.pool b := fun b hb => by
    rw [hpool, Function.update_of_ne hb]
  have hhas : ∀ u b, w'.Has u b ↔ b ≠ a ∧ w.Has u b := by
    intro u b
    by_cases hb : b = a
    · subst hb
      simp [World.Has, hself]
    · simp [World.Has, hother b hb, hb]
  have hunlisted : w.pool a ≠ some .listed := fun hl => World.not_has_of_listed hl h.head
  refine ⟨?_, ?_, ?_⟩
  · exact {
      apart := hinv.apart
      placed := fun v hv hnone => by
        by_cases hb : v.addr = a
        · exact h.shows _ List.mem_cons_self v (hshown v hv) hb
        · rw [hother _ hb] at hnone
          exact hinv.placed v (hshown v hv) hnone
      proper := fun b pl hpl => by
        by_cases hb : b = a
        · rw [hb, hself] at hpl
          cases hpl
        · rw [hother b hb] at hpl
          exact hinv.proper b pl hpl
      listed := fun b => by
        rw [hctx, ← hinv.listed b]
        by_cases hb : b = a
        · rw [hb, hself]
          exact ⟨fun h => absurd h (by simp), fun h => absurd h hunlisted⟩
        · rw [hother b hb]
      nodup := by
        rw [hctx]
        exact hinv.nodup
      shows := fun m hm v hv => by
        rw [hctx] at hm
        exact hinv.shows m hm v (hshown v hv) }
  · refine exec_guar_views he (.inr (.inr fun _ => rfl)) (fun u hu b => (hhas u b).trans ?_)
      (fun v hv => .inl (hshown v hv)) (.inr (hctx ▸ List.Subset.refl _))
    constructor
    · intro hb
      exact hb.2
    · intro hb
      exact ⟨fun hba => hu (hb.unique (hba ▸ h.head)), hb⟩
  · have hfresh : a ∉ cs.map Prod.fst := (List.nodup_cons.mp h.nodup).1
    refine ⟨fun b => (hhas t b).trans ?_, (List.nodup_cons.mp h.nodup).2, fun c hc v hv =>
      h.shows c (List.mem_cons_of_mem _ hc) v (hshown v hv)⟩
    rw [h.has b, List.map_cons, List.mem_cons]
    constructor
    · rintro ⟨hne, rfl | hb⟩
      · exact absurd rfl hne
      · exact hb
    · intro hb
      exact ⟨fun hba => hfresh (hba ▸ hb), .inr hb⟩

/-- The charges after an allocation. -/
def allocated (cs : List Charge) : Option Nat → List Charge
  | none => cs
  | some a => bare a :: cs

/-- A request gets a record to build, or gets none. -/
theorem exec_allocPool {cs : List Charge} {x : Option Nat}
    (he : w.exec .ioctl .allocPool e = some (x, w')) (hl : L .ioctl) (hinv : ViewsInv L w)
    (h : Owns .ioctl cs w) :
    ViewsInv L w' ∧ views.guar .ioctl w w' ∧ Owns .ioctl (allocated cs x) w' := by
  have hf := World.exec_frame he
  have hctx : w'.ctx = w.ctx := hf.ctx
  have hviews : w'.views = w.views := hf.views id
  have hshown : ∀ v, w'.Shown v → w.Shown v := shown_of_views he (hviews ▸ List.Subset.refl _)
  have hn : Op.allocPool.NeedsOf .ioctl := .inl rfl
  cases x with
  | none =>
    have hpool : w'.pool = w.pool := by
      obtain ⟨w₁, hs, rfl⟩ := World.exec_step he
      cases e <;> simp [World.step] at hs
      rw [← hs]
      rfl
    obtain ⟨hinv', hguar, howns⟩ := exec_unmoved he hn hinv hpool (by rw [hctx]) hshown
    exact ⟨hinv', hguar, howns cs h⟩
  | some a =>
    have halloc : w.pool a = none ∧ w'.pool = Function.update w.pool a (some (.building .ioctl)) := by
      obtain ⟨w₁, hs, rfl⟩ := World.exec_step he
      cases e <;> simp [World.step] at hs
      obtain ⟨hfree, rfl, rfl⟩ := hs
      exact ⟨hfree, rfl⟩
    obtain ⟨hfree, hpool⟩ := halloc
    have hself : w'.pool a = some (.building .ioctl) := by rw [hpool, Function.update_self]
    have hother : ∀ b, b ≠ a → w'.pool b = w.pool b := fun b hb => by
      rw [hpool, Function.update_of_ne hb]
    have hbare : ∀ u, ¬ w.Has u a := by
      rintro u ⟨pl, hpl, -⟩
      rw [hfree] at hpl
      cases hpl
    have hhas : ∀ u b, w'.Has u b ↔ (b = a ∧ u = .ioctl) ∨ w.Has u b := by
      intro u b
      by_cases hb : b = a
      · subst hb
        simp [World.Has, hself, hfree, Place.owner, eq_comm]
      · simp [World.Has, hother b hb, hb]
    have hunshown : ∀ v, w'.Shown v → v.addr ≠ a := fun v hv ha =>
      hinv.placed v (hshown v hv) (ha ▸ hfree)
    refine ⟨?_, ?_, ?_⟩
    · exact {
        apart := hinv.apart
        placed := fun v hv => by
          rw [hother _ (hunshown v hv)]
          exact hinv.placed v (hshown v hv)
        proper := fun b pl hpl => by
          by_cases hb : b = a
          · rw [hb, hself] at hpl
            obtain rfl := Option.some.inj hpl
            exact ⟨rfl, fun u hu => Option.some.inj hu ▸ hl⟩
          · rw [hother b hb] at hpl
            exact hinv.proper b pl hpl
        listed := fun b => by
          rw [hctx, ← hinv.listed b]
          by_cases hb : b = a
          · rw [hb, hself, hfree]
            simp
          · rw [hother b hb]
        nodup := by
          rw [hctx]
          exact hinv.nodup
        shows := fun m hm v hv => by
          rw [hctx] at hm
          exact hinv.shows m hm v (hshown v hv) }
    · refine exec_guar_views he hn (fun u hu b => (hhas u b).trans ?_)
        (fun v hv => .inl (hshown v hv)) (.inl rfl)
      simp [hu]
    · refine ⟨fun b => (hhas .ioctl b).trans ?_, ?_, fun c hc v hv ha => ?_⟩
      · rw [h.has b]
        simp [allocated, bare]
      · refine List.nodup_cons.mpr ⟨fun ha => ?_, h.nodup⟩
        exact hbare .ioctl ((h.has a).mpr ha)
      · rcases List.mem_cons.mp hc with rfl | hc
        · exact hunshown v hv ha
        · exact h.shows c hc v (hshown v hv) ha

/-! ## A view comes -/

theorem addView_cases {addr : Nat} {span : Span} {r : Except NtStatus UInt64} {w₁ : World}
    (h : w.addView t addr span e = some (r, w₁)) :
    (∃ s, r = .error s ∧ w₁ = w) ∨
      ∃ va, r = .ok va ∧ w₁ = { w with views := ⟨addr, w.curProc t, va, span⟩ :: w.views } := by
  cases e with
  | address a =>
    simp only [World.addView, Option.ite_none_right_eq_some, Option.some.injEq, Prod.mk.injEq] at h
    exact .inr ⟨_, h.2.1.symm, h.2.2.symm⟩
  | fail s =>
    simp only [World.addView, Option.some.injEq, Prod.mk.injEq] at h
    exact .inl ⟨s, h.1.symm, h.2.symm⟩
  | _ => cases h

theorem addView_of_mapView {start size : UInt64} {addr : Nat} {r : Except NtStatus UInt64}
    {w₁ : World} (h : w.step t (.mapView start size addr) e = some (r, w₁)) :
    w.addView t addr (.range start size) e = some (r, w₁) := by
  cases e with
  | address a => exact h
  | fail s =>
    simp only [World.step, Option.ite_none_left_eq_some] at h
    exact h.2
  | _ => cases h

/-- The charge of a record after the attempt to map its view. -/
def mapped (a : Nat) (p : Process) (span : Span) : Except NtStatus UInt64 → Charge
  | .error _ => bare a
  | .ok va => (a, fun v => v = ⟨a, p, va, span⟩)

/-- A thread maps a view for a record it has. -/
theorem exec_addView {addr : Nat} {span : Span} {r : Except NtStatus UInt64} {w₁ : World}
    {cs : List Charge} (he : w.exec t o e = some (x, w')) (ho : o.NeedsOf t)
    (hadd : w.addView t addr span e = some (r, w₁)) (hw : w' = w₁.record t ⟨o, x⟩)
    (hinv : ViewsInv L w) (h : Owns t (bare addr :: cs) w) :
    ViewsInv L w' ∧ views.guar t w w' ∧ Owns t (mapped addr (w.curProc t) span r :: cs) w' := by
  rcases addView_cases hadd with ⟨s, rfl, rfl⟩ | ⟨va, rfl, rfl⟩
  · have hviews : w'.views = w₁.views := by rw [hw]; rfl
    obtain ⟨hinv', hguar, howns⟩ := exec_unmoved he ho hinv (by rw [hw]; rfl) (by rw [hw]; rfl)
      (shown_of_views he (hviews ▸ List.Subset.refl _))
    exact ⟨hinv', hguar, howns _ h⟩
  · have hctx : w'.ctx = w.ctx := by rw [hw]; rfl
    have hpool : w'.pool = w.pool := by rw [hw]; rfl
    have hprocs : w'.procs = w.procs := (World.exec_frame he).procs
    have hhas : ∀ u a, w'.Has u a ↔ w.Has u a := fun u a => World.has_congr hpool u a
    have hshown : ∀ v, w'.Shown v → w.Shown v ∨ v = ⟨addr, w.curProc t, va, span⟩ := by
      intro v hv
      have hmem : v ∈ w'.views := hv.1
      rw [hw] at hmem
      rcases List.mem_cons.mp hmem with hnew | hold
      · exact .inr hnew
      · exact .inl ⟨hold, hprocs ▸ hv.2⟩
    have hmine : w.Has t addr := h.head
    refine ⟨?_, ?_, ?_⟩
    · exact {
        apart := hinv.apart
        placed := fun v hv => by
          rw [hpool]
          rcases hshown v hv with hold | rfl
          · exact hinv.placed v hold
          · obtain ⟨pl, hpl, -⟩ := hmine
            simp [hpl]
        proper := by
          rw [hpool]
          exact hinv.proper
        listed := by
          rw [hpool, hctx]
          exact hinv.listed
        nodup := by
          rw [hctx]
          exact hinv.nodup
        shows := fun m hm v hv ha => by
          rw [hctx] at hm
          rcases hshown v hv with hold | rfl
          · exact hinv.shows m hm v hold ha
          · -- the new view's record is not on the list
            have ha : addr = m.addr := ha
            have hlisted := (hinv.listed m.addr).mpr (List.mem_map_of_mem hm)
            rw [← ha] at hlisted
            exact absurd hmine (World.not_has_of_listed hlisted) }
    · refine exec_guar_views he ho (fun u _ => hhas u) (fun v hv => ?_)
        (.inr (hctx ▸ List.Subset.refl _))
      rcases hshown v hv with hold | rfl
      · exact .inl hold
      · exact .inr hmine
    · refine ⟨fun a => (hhas t a).trans (h.has a), h.nodup, fun c hc v hv ha => ?_⟩
      rcases List.mem_cons.mp hc with rfl | hc'
      · rcases hshown v hv with hold | rfl
        · exact (h.shows _ List.mem_cons_self v hold ha).elim
        · rfl
      · rcases hshown v hv with hold | rfl
        · exact h.shows c (List.mem_cons_of_mem _ hc') v hold ha
        · have ha : addr = c.1 := ha
          have hin : c.1 ∈ cs.map Prod.fst := List.mem_map_of_mem hc'
          rw [← ha] at hin
          exact absurd hin (List.nodup_cons.mp h.nodup).1

/-! ## Records on and off the list -/

/-- A request lists a record it has built. -/
theorem exec_listed {m : UserMapping} {cs : List Charge}
    (he : w.exec .ioctl o e = some (x, w'))
    (hlist : w'.ctx.mappingList = w.ctx.mappingList ++ [m])
    (hpool : w'.pool = Function.update w.pool m.addr (some .listed)) (hviews : w'.views = w.views)
    (hinv : ViewsInv L w) (h : Owns .ioctl (m.charge :: cs) w) :
    ViewsInv L w' ∧ views.guar .ioctl w w' ∧ Owns .ioctl cs w' := by
  have hshown : ∀ v, w'.Shown v → w.Shown v := shown_of_views he (hviews ▸ List.Subset.refl _)
  have hself : w'.pool m.addr = some .listed := by rw [hpool, Function.update_self]
  have hother : ∀ b, b ≠ m.addr → w'.pool b = w.pool b := fun b hb => by
    rw [hpool, Function.update_of_ne hb]
  have hmine : w.Has .ioctl m.addr := h.head
  have hhas : ∀ u b, w'.Has u b ↔ b ≠ m.addr ∧ w.Has u b := by
    intro u b
    by_cases hb : b = m.addr
    · subst hb
      simp [World.Has, hself, Place.owner]
    · simp [World.Has, hother b hb, hb]
  have hunlisted : m.addr ∉ w.ctx.mappingList.map (·.addr) := fun hm =>
    World.not_has_of_listed ((hinv.listed _).mpr hm) hmine
  refine ⟨?_, ?_, ?_⟩
  · exact {
      apart := hinv.apart
      placed := fun v hv => by
        by_cases hb : v.addr = m.addr
        · rw [hb, hself]
          simp
        · rw [hother _ hb]
          exact hinv.placed v (hshown v hv)
      proper := fun b pl hpl => by
        by_cases hb : b = m.addr
        · rw [hb, hself] at hpl
          obtain rfl := Option.some.inj hpl
          exact ⟨trivial, fun u hu => nomatch hu⟩
        · rw [hother b hb] at hpl
          exact hinv.proper b pl hpl
      listed := fun b => by
        rw [hlist, List.map_append, List.mem_append, ← hinv.listed b]
        by_cases hb : b = m.addr
        · simp [hb, hself]
        · simp [hother b hb, hb]
      nodup := by
        rw [hlist, List.map_append, List.nodup_append]
        refine ⟨hinv.nodup, by simp, fun a ha b hb hab => ?_⟩
        obtain rfl : b = m.addr := by simpa using hb
        exact hunlisted (hab ▸ ha)
      shows := fun m' hm' v hv ha => by
        rw [hlist] at hm'
        rcases List.mem_append.mp hm' with hm' | hm'
        · exact hinv.shows m' hm' v (hshown v hv) ha
        · obtain rfl := List.mem_singleton.mp hm'
          exact h.shows _ List.mem_cons_self v (hshown v hv) ha }
  · refine exec_guar_views he (.inl rfl) (fun u hu b => (hhas u b).trans ?_)
      (fun v hv => .inl (hshown v hv)) (.inl rfl)
    constructor
    · intro hb
      exact hb.2
    · intro hb
      exact ⟨fun hba => hu (hb.unique (hba ▸ hmine)), hb⟩
  · have hfresh : m.addr ∉ cs.map Prod.fst := (List.nodup_cons.mp h.nodup).1
    refine ⟨fun b => (hhas .ioctl b).trans ?_, (List.nodup_cons.mp h.nodup).2, fun c hc v hv =>
      h.shows c (List.mem_cons_of_mem _ hc) v (hshown v hv)⟩
    rw [h.has b, List.map_cons, List.mem_cons]
    constructor
    · rintro ⟨hne, rfl | hb⟩
      · exact absurd rfl hne
      · exact hb
    · intro hb
      exact ⟨fun hba => hfresh (hba ▸ hb), .inr hb⟩

/-- The records a section takes off the list. -/
def Section.taken : (s : Section) → s.Ans → List UserMapping
  | .takeMapping _ _, found => found.toList
  | .sweepFile _, ms => ms
  | .sweepAll, ms => ms
  | _, _ => []

/-- Sections that list a record. -/
def Section.Inserts : Section → Prop
  | .insertMapping _ | .appendMapping _ => True
  | _ => False

/-- What a section takes and what it leaves make up the list. -/
theorem Section.run_perm {s : Section} (hs : ¬ s.Inserts) (c : DeviceContext) :
    c.mappingList.Perm (s.taken (s.run c).1 ++ (s.run c).2.mappingList) := by
  cases s with
  | insertMapping m => exact absurd trivial hs
  | appendMapping m => exact absurd trivial hs
  | takeMapping fo va =>
    simp only [Section.run]
    cases hfind : c.mappingList.find? (isMappingAt fo va) with
    | none => exact List.Perm.refl _
    | some m =>
      obtain ⟨hm, l₁, l₂, hl, hfirst⟩ := List.find?_eq_some_iff_append.mp hfind
      have herase : c.mappingList.eraseP (isMappingAt fo va) = l₁ ++ l₂ := by
        rw [hl, List.eraseP_append_right _ (fun b hb => by simpa using hfirst b hb),
          List.eraseP_cons_of_pos hm]
      show c.mappingList.Perm (m :: c.mappingList.eraseP (isMappingAt fo va))
      rw [herase, hl]
      exact List.perm_middle
  | sweepFile fo => exact (List.filter_append_perm _ _).symm
  | sweepAll => simp [Section.taken, Section.run]
  | anyMapping => exact List.Perm.refl _
  | fence => exact List.Perm.refl _
  | checkTlbOwner fo i => exact List.Perm.refl _
  | allocateTlb fo =>
    rw [Section.LeavesList.list (s := .allocateTlb fo) trivial c]
    exact List.Perm.refl _
  | freeTlb fo i =>
    rw [Section.LeavesList.list (s := .freeTlb fo i) trivial c]
    exact List.Perm.refl _

theorem Section.places_taken {s : Section} (hs : ¬ s.Inserts) (t : Tid) (x : s.Ans)
    (pool : Nat → Option Place) (a : Nat) : s.places t x pool a =
      if a ∈ (s.taken x).map (·.addr) then some (.detached t) else pool a := by
  cases s with
  | insertMapping m => exact absurd trivial hs
  | appendMapping m => exact absurd trivial hs
  | takeMapping fo va =>
    cases x with
    | none => rfl
    | some m => simp [Section.places, Section.taken, Function.update_apply]
  | sweepFile fo => simp [Section.places, Section.taken]
  | sweepAll => simp [Section.places, Section.taken]
  | _ => rfl

/-- A section other than an insertion: the thread has what it takes off the list. -/
theorem exec_taken {s : Section} {x : s.Ans} {cs : List Charge} (hs : ¬ s.Inserts)
    (he : w.exec t (.locked s) e = some (x, w')) (hp : s.taken x ≠ [] → (Place.detached t).Proper)
    (hl : L t) (hinv : ViewsInv L w) (h : Owns t cs w) :
    ViewsInv L w' ∧ views.guar t w w' ∧
      Owns t ((s.taken x).map UserMapping.charge ++ cs) w' := by
  obtain ⟨hx, hpool, hviews⟩ := exec_locked he
  have hctx : w'.ctx = (s.run w.ctx).2 := (World.exec_frame he).ctx
  have hshown : ∀ v, w'.Shown v → w.Shown v := shown_of_views he (hviews ▸ List.Subset.refl _)
  have hperm : w.ctx.mappingList.Perm (s.taken x ++ w'.ctx.mappingList) := by
    rw [hx, hctx]
    exact Section.run_perm hs w.ctx
  have hmem : ∀ m, m ∈ w.ctx.mappingList ↔ m ∈ s.taken x ∨ m ∈ w'.ctx.mappingList := fun m => by
    rw [hperm.mem_iff, List.mem_append]
  have haddr : ∀ a, a ∈ w.ctx.mappingList.map (·.addr) ↔
      a ∈ (s.taken x).map (·.addr) ∨ a ∈ w'.ctx.mappingList.map (·.addr) := fun a => by
    rw [(hperm.map _).mem_iff, List.map_append, List.mem_append]
  have hnodup : ((s.taken x).map (·.addr) ++ w'.ctx.mappingList.map (·.addr)).Nodup := by
    rw [← List.map_append]
    exact (hperm.map _).nodup_iff.mp hinv.nodup
  obtain ⟨hnodup₁, hnodup₂, hapart⟩ := List.nodup_append.mp hnodup
  have hplace : ∀ a, w'.pool a =
      if a ∈ (s.taken x).map (·.addr) then some (.detached t) else w.pool a := fun a => by
    rw [hpool]
    exact Section.places_taken hs t x w.pool a
  have hlisted : ∀ a, a ∈ (s.taken x).map (·.addr) → w.pool a = some .listed := fun a ha =>
    (hinv.listed a).mpr ((haddr a).mpr (.inl ha))
  have hhas : ∀ u b, w'.Has u b ↔ (u = t ∧ b ∈ (s.taken x).map (·.addr)) ∨ w.Has u b := by
    intro u b
    by_cases hb : b ∈ (s.taken x).map (·.addr)
    · have hself : w'.pool b = some (.detached t) := by rw [hplace b, if_pos hb]
      simp [World.Has, hself, Place.owner, hlisted b hb, hb, eq_comm]
    · have hkept : w'.pool b = w.pool b := by rw [hplace b, if_neg hb]
      simp [World.Has, hkept, hb]
  refine ⟨?_, ?_, ?_⟩
  · exact {
      apart := hinv.apart
      placed := fun v hv => by
        rw [hplace]
        split
        · simp
        · exact hinv.placed v (hshown v hv)
      proper := fun b pl hpl => by
        rw [hplace] at hpl
        split at hpl
        · rename_i hb
          obtain rfl := Option.some.inj hpl
          refine ⟨hp fun hnil => ?_, fun u hu => Option.some.inj hu ▸ hl⟩
          rw [hnil] at hb
          cases hb
        · exact hinv.proper b pl hpl
      listed := fun b => by
        rw [hplace]
        split
        · rename_i hb
          constructor
          · intro h
            cases h
          · intro h
            exact absurd rfl (hapart b hb b h)
        · rename_i hb
          rw [hinv.listed b, haddr b]
          exact ⟨fun h => h.resolve_left hb, .inr⟩
      nodup := hnodup₂
      shows := fun m hm v hv => hinv.shows m ((hmem m).mpr (.inr hm)) v (hshown v hv) }
  · refine exec_guar_views he (needsOf_locked t s) (fun u hu b => (hhas u b).trans ?_)
      (fun v hv => .inl (hshown v hv)) (.inr fun m hm => (hmem m).mpr (.inr hm))
    simp [hu]
  · have hmap : ((s.taken x).map UserMapping.charge ++ cs).map Prod.fst =
        (s.taken x).map (·.addr) ++ cs.map Prod.fst := by
      rw [List.map_append, List.map_map]
      rfl
    refine ⟨fun b => ?_, ?_, fun c hc v hv ha => ?_⟩
    · rw [hmap, List.mem_append, hhas t b, h.has b]
      simp
    · rw [hmap]
      refine List.nodup_append.mpr ⟨hnodup₁, h.nodup, fun a ha b hb hab => ?_⟩
      exact World.not_has_of_listed (hlisted a ha) ((h.has a).mpr (hab ▸ hb))
    · rcases List.mem_append.mp hc with hc | hc
      · obtain ⟨m, hm, rfl⟩ := List.mem_map.mp hc
        exact hinv.shows m ((hmem m).mpr (.inl hm)) v (hshown v hv) ha
      · exact h.shows c hc v (hshown v hv) ha

end TtWind
