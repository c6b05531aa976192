import TtWind.Tenancy
import TtWind.Laws.Current
import TtWind.Laws.Ledger
import TtWind.Laws.Revocation

/-!
# Whose the windows and the mappings are

The owner table and the mapping list are a tenancy: the windows are let to handles, and a handle puts
mapping records up, on a window of its own or on none. The sections under StateLock are the acts of
the tenancy, as their answers tell, and nothing else changes it. So the tables are what the
history of the answers says, and what a handle has changes only for its own requests, its own cleanup,
a reset and the removal of the device.
-/

set_option autoImplicit false

namespace TtWind

open TtWind.Effect TtWind.Effect.Prog TtWind.Effect.Protocol

/-- The window a record is backed by. -/
def UserMapping.window (m : UserMapping) : Option Nat := if 0 ≤ m.tlbId then some m.tlbId.toNat else none

/-- Windows let to handles, and mapping records. -/
abbrev WindowTenancy := Tenancy UserMapping.fileObject UserMapping.window

abbrev WindowAct := TenancyAct Nat FileObject UserMapping

/-- What a section did, as its answer tells. -/
def Section.act : (s : Section) → s.Ans → Option WindowAct
  | .fence, _ => some .ends
  | .insertMapping m, inserted => if inserted then some (.puts m) else none
  | .appendMapping m, _ => some (.puts m)
  | .takeMapping _ _, found => found.map .drops
  | .sweepFile fo, _ => some (.leaves fo)
  | .sweepAll, _ => some .ends
  | .allocateTlb fo, id => id.map (.takes fo)
  | .freeTlb fo id, status => if status = .success then some (.returns fo id) else none
  | _, _ => none

def Op.act : (o : Op) → o.Ans → Option WindowAct
  | .locked s, x => s.act x
  | _, _ => none

/-- The tables say so. -/
structure DeviceContext.Tells (c : DeviceContext) (s : WindowTenancy) : Prop where
  tenant : s.tenant = c.tlbOwner
  items : s.items = c.mappingList

theorem DeviceContext.Tells.eq {c : DeviceContext} {s s' : WindowTenancy} (h : c.Tells s) (h' : c.Tells s') :
    s' = s := Tenancy.ext (h'.tenant.trans h.tenant.symm) (h'.items.trans h.items.symm)

theorem DeviceContext.Tells.congr {c c' : DeviceContext} {s : WindowTenancy} (h : c.Tells s)
    (hl : c'.mappingList = c.mappingList) (ho : c'.tlbOwner = c.tlbOwner) : c'.Tells s :=
  ⟨h.tenant.trans ho.symm, h.items.trans hl.symm⟩

/-- Tables that agree are a tenancy. -/
theorem DeviceContext.exists_tells {c : DeviceContext} (h : c.AllocatorInv) (hn : c.mappingList.Nodup) :
    ∃ s : WindowTenancy, c.Tells s := by
  refine ⟨⟨c.tlbOwner, c.mappingList, hn, fun m hm i hi => ?_⟩, rfl, rfl⟩
  unfold UserMapping.window at hi
  split at hi
  · rename_i h0
    obtain rfl := Option.some.inj hi
    exact h.records m hm h0
  · cases hi

/-! ## The sections -/

theorem reclaimed_none {c : DeviceContext} (h : c.AllocatorInv) : c.reclaimTlbs.tlbOwner = fun _ => none := by
  funext i
  simp only [DeviceContext.reclaimTlbs]
  split
  · rfl
  · rename_i hi
    by_contra hn
    exact hi (h.range i hn)

/-- A section does what its answer tells. A fence needs an empty list, and an insertion a new record. -/
theorem Section.does {c : DeviceContext} (sec : Section) {s s' : WindowTenancy} (hs : c.Tells s)
    (hs' : (sec.run c).2.Tells s') (h : c.AllocatorInv) (hfence : sec = .fence → c.mappingList = [])
    (hnew : ∀ m, sec = .insertMapping m ∨ sec = .appendMapping m → m ∉ c.mappingList) :
    (sec.act (sec.run c).1 = none → s' = s) ∧ ∀ a, sec.act (sec.run c).1 = some a → s.Does a s' := by
  obtain ⟨htenant, hitems⟩ := hs
  obtain ⟨htenant', hitems'⟩ := hs'
  have hsame : (sec.run c).2.tlbOwner = c.tlbOwner → (sec.run c).2.mappingList = c.mappingList → s' = s :=
    fun ho hl => Tenancy.ext (htenant'.trans (ho.trans htenant.symm)) (hitems'.trans (hl.trans hitems.symm))
  cases sec with
  | anyMapping => exact ⟨fun _ => hsame rfl rfl, fun _ ha => by cases ha⟩
  | checkTlbOwner fo id => exact ⟨fun _ => hsame rfl rfl, fun _ ha => by cases ha⟩
  | fence =>
    refine ⟨fun hn => (by cases hn), fun a ha => ?_⟩
    cases ha
    exact ⟨htenant'.trans (reclaimed_none h), hitems'.trans (hfence rfl)⟩
  | sweepAll =>
    refine ⟨fun hn => (by cases hn), fun a ha => ?_⟩
    cases ha
    exact ⟨htenant'.trans (reclaimed_none h), hitems'⟩
  | sweepFile fo =>
    refine ⟨fun hn => (by cases hn), fun a ha => ?_⟩
    cases ha
    refine ⟨?_, by rw [hitems', hitems]; rfl⟩
    rw [htenant', htenant]
    funext i
    show (if i < tlb2mCount ∧ c.tlbOwner i = some fo then none else c.tlbOwner i) = _
    by_cases hi : c.tlbOwner i = some fo
    · rw [if_pos ⟨h.range i (by simp [hi]), hi⟩, if_pos hi]
    · rw [if_neg (fun hboth => hi hboth.2), if_neg hi]
  | appendMapping m =>
    refine ⟨fun hn => (by cases hn), fun a ha => ?_⟩
    cases ha
    exact ⟨hitems ▸ hnew m (.inr rfl), htenant'.trans htenant.symm, by rw [hitems', hitems]; rfl⟩
  | insertMapping m =>
    by_cases hlost : 0 ≤ m.tlbId ∧ c.tlbOwner m.tlbId.toNat ≠ some m.fileObject
    · simp only [run, if_pos hlost] at htenant' hitems' ⊢
      exact ⟨fun _ => Tenancy.ext (htenant'.trans htenant.symm) (hitems'.trans hitems.symm), fun _ ha => by cases ha⟩
    · simp only [run, if_neg hlost] at htenant' hitems' ⊢
      refine ⟨fun hn => (by cases hn), fun a ha => ?_⟩
      cases ha
      exact ⟨hitems ▸ hnew m (.inl rfl), htenant'.trans htenant.symm, by rw [hitems', hitems]; rfl⟩
  | takeMapping fo va =>
    cases hfound : c.mappingList.find? (isMappingAt fo va) with
    | none =>
      simp only [run, hfound] at htenant' hitems' ⊢
      exact ⟨fun _ => Tenancy.ext (htenant'.trans htenant.symm) (hitems'.trans hitems.symm), fun _ ha => by cases ha⟩
    | some m =>
      simp only [run, hfound] at htenant' hitems' ⊢
      refine ⟨fun hn => (by cases hn), fun a ha => ?_⟩
      cases ha
      obtain ⟨as, bs, hlist, herase⟩ := eraseP_of_find? hfound
      have hnodup := s.nodup
      rw [hitems, hlist] at hnodup
      have hm : m ∉ as := fun hin => (List.nodup_append.mp hnodup).2.2 m hin m List.mem_cons_self rfl
      refine ⟨by rw [hitems]; exact List.mem_of_find?_eq_some hfound, htenant'.trans htenant.symm, ?_⟩
      rw [hitems', herase, hitems, hlist, List.erase_append_right _ hm, List.erase_cons_head]
  | allocateTlb fo =>
    cases hid : findClearBit c.tlbBitmap with
    | none =>
      simp only [run, hid] at htenant' hitems' ⊢
      exact ⟨fun _ => Tenancy.ext (htenant'.trans htenant.symm) (hitems'.trans hitems.symm), fun _ ha => by cases ha⟩
    | some id =>
      simp only [run, hid] at htenant' hitems' ⊢
      refine ⟨fun hn => (by cases hn), fun a ha => ?_⟩
      cases ha
      have hclear := (findClearBit_some hid).2
      have hnone : c.tlbOwner id = none := by
        by_contra hn
        rw [(h.bitmap id).mpr (.inl hn)] at hclear
        cases hclear
      exact ⟨by rw [htenant]; exact hnone, by rw [htenant', htenant], hitems'.trans hitems.symm⟩
  | freeTlb fo id =>
    by_cases howner : c.checkTlbOwner fo id ≠ .success
    · simp only [run, if_pos howner] at htenant' hitems' ⊢
      refine ⟨fun _ => Tenancy.ext (htenant'.trans htenant.symm) (hitems'.trans hitems.symm), fun a ha => ?_⟩
      simp only [act, if_neg howner] at ha
      cases ha
    · by_cases hmapped : c.tlbHasMappings id
      · simp only [run, if_neg howner, if_pos hmapped] at htenant' hitems' ⊢
        exact ⟨fun _ => Tenancy.ext (htenant'.trans htenant.symm) (hitems'.trans hitems.symm), fun _ ha => by cases ha⟩
      · simp only [run, if_neg howner, if_neg hmapped] at htenant' hitems' ⊢
        refine ⟨fun hn => (by cases hn), fun a ha => ?_⟩
        cases ha
        have hown : c.tlbOwner id = some fo := by
          by_contra hn
          apply howner
          unfold DeviceContext.checkTlbOwner
          split
          · exact fun he => by cases he
          · exact fun he => by cases he
        exact ⟨by rw [htenant]; exact hown, by rw [htenant', htenant], hitems'.trans hitems.symm⟩

/-! ## Who acts -/

/-- The sections a thread runs: a request those for its handle and the two of a reset, the others a sweep. -/
def Section.By (w : World) (t : Tid) (s : Section) : Prop :=
  match t with
  | .ioctl => s.OfFile w.req.fileObject ∨ s = .anyMapping ∨ s = .fence
  | .cleanup fo => s = .sweepFile fo
  | .hardware => s = .sweepAll
  | _ => False

/-- The operation is no section, or one the thread runs. -/
def Op.By (w : World) (t : Tid) : Op → Prop
  | .locked s => s.By w t
  | _ => True

theorem call_by {w : World} {p : Drv Unit} {t : Tid} (h : w.Call p t) : p.Only (Op.By w t) := by
  have hplain : ∀ {t : Tid} {o : Op}, o.plain → o.By w t := by
    intro t o ho
    cases o <;> trivial
  have hdevice : ∀ {t : Tid} {l : Lock} {o : Op}, deviceFoot l o → o.By w t := by
    intro t l o ho
    cases o <;> trivial
  cases t with
  | ioctl =>
    obtain ⟨code, rfl⟩ := h
    apply evtIoDeviceControl_only fun _ => hplain
    by_cases hcode : code = .resetDevice
    · subst hcode
      have hreset : (ioctlResetDevice w.req.fileObject).Only (resetFoot fun s => s = .anyMapping ∨ s = .fence) :=
        resetDevice_only (.inl rfl) (.inr rfl) _
      refine (hreset.mono fun o ho => ?_).bind fun _ => trivial
      cases o <;> first | trivial | exact .inr ho
    · refine (ioctlHandler_only w.req.fileObject hcode).mono fun o ho => ?_
      rcases ho with ho | ⟨l, ho⟩ | ho
      · cases o <;> first | trivial | exact .inl ho
      · exact hdevice ho
      · cases o <;> trivial
  | power =>
    obtain ⟨cb, rfl⟩ := h
    exact (power_only cb).mono fun o ho => hdevice (arcFoot_of_powerFoot ho)
  | hardware =>
    have hhardware : ∀ {o : Op}, hardwareFoot o → o.By w .hardware := by
      intro o ho
      cases o <;> trivial
    rcases h with ⟨resources, rfl⟩ | rfl
    · refine ((evtDevicePrepareHardware_only resources).mono fun o ho => ?_).bind fun _ => trivial
      exact hhardware (hardwareFoot_of_prepare ho)
    · exact evtDeviceReleaseHardware_only.mono fun _ => hhardware
  | create fo =>
    obtain rfl : p = evtDeviceFileCreate fo := h
    refine (evtDeviceFileCreate_only fo).mono fun o ho => ?_
    cases o <;> trivial
  | cleanup fo =>
    obtain rfl : p = evtFileCleanup fo := h
    refine (evtFileCleanup_only fo).mono fun o ho => ?_
    cases o <;> trivial

/-- The request acts for the handle, which no reset has overtaken. -/
def World.ActsFor (w : World) (fo : FileObject) : Prop :=
  w.req.fileObject = some fo ∧ w.fileGen fo = w.ctx.resetGeneration

/-- Whose act it may be: a current request's for its handle, a cleanup's, the removal's, or a reset's when nothing
is mapped. -/
def WindowAct.Rightful (w : World) (t : Tid) : WindowAct → Prop
  | .takes fo _ | .returns fo _ => t = .ioctl ∧ w.ActsFor fo
  | .puts m | .drops m => t = .ioctl ∧ w.ActsFor m.fileObject
  | .leaves fo => t = .cleanup fo
  | .ends => t = .hardware ∨ t = .ioctl ∧ w.ctx.mappingList = []

/-- The act of a request for its handle. -/
def WindowAct.Of (fo : FileObject) : WindowAct → Prop
  | .takes fo' _ | .returns fo' _ => fo' = fo
  | .puts m | .drops m => m.fileObject = fo
  | _ => False

theorem WindowAct.Of.rightful {fo : FileObject} {a : WindowAct} (h : WindowAct.Of fo a) {w : World}
    (hw : w.ActsFor fo) : WindowAct.Rightful w .ioctl a := by
  cases a with
  | takes fo' i | returns fo' i =>
    obtain rfl : fo' = fo := h
    exact ⟨rfl, hw⟩
  | puts m | drops m =>
    obtain rfl : m.fileObject = fo := h
    exact ⟨rfl, hw⟩
  | leaves fo' => exact h.elim
  | ends => exact h.elim

/-- A section for a handle acts for it; the record it takes off the list is the handle's own. -/
theorem Section.act_ofFile {fileObject : Option FileObject} {c : DeviceContext} {s : Section} {x : s.Ans}
    {a : WindowAct} (hs : s.OfFile fileObject) (hx : x = (s.run c).1) (ha : s.act x = some a) :
    ∃ fo, fileObject = some fo ∧ WindowAct.Of fo a := by
  cases s with
  | insertMapping m =>
    obtain ⟨hfo, -⟩ := hs
    simp only [act, Option.ite_none_right_eq_some, Option.some.injEq] at ha
    obtain ⟨-, rfl⟩ := ha
    exact ⟨_, hfo, rfl⟩
  | appendMapping m =>
    obtain ⟨hfo, -⟩ := hs
    cases ha
    exact ⟨_, hfo, rfl⟩
  | takeMapping fo va =>
    refine ⟨fo, hs, ?_⟩
    obtain ⟨m, hfound, rfl⟩ := Option.map_eq_some_iff.mp ha
    cases hlist : c.mappingList.find? (isMappingAt fo va) with
    | none =>
      simp only [run, hlist] at hx
      rw [hx] at hfound
      cases hfound
    | some m' =>
      simp only [run, hlist] at hx
      obtain rfl := Option.some.inj (hx.symm.trans hfound)
      have hm := List.find?_some hlist
      simp only [isMappingAt, Bool.and_eq_true, beq_iff_eq] at hm
      exact hm.1
  | allocateTlb fo =>
    obtain ⟨i, -, rfl⟩ := Option.map_eq_some_iff.mp ha
    exact ⟨fo, hs, rfl⟩
  | freeTlb fo i =>
    simp only [act, Option.ite_none_right_eq_some, Option.some.injEq] at ha
    obtain ⟨-, rfl⟩ := ha
    exact ⟨fo, hs, rfl⟩
  | checkTlbOwner fo i => cases ha
  | _ => exact (hs : False).elim

section Reached

variable {c : DriverConfig} (h : Reach driver anyStep c)

include h

theorem reach_custody : c.world.custody.Sound := by
  obtain ⟨g, hg⟩ := h.watched (O := ledger) (fun _ _ => ⟨{}, rfl⟩) fun _ _ _ _ _ => rfl
  exact (reach_balanced hg).1.sound

theorem reach_tells : ∃ s : WindowTenancy, c.world.ctx.Tells s :=
  DeviceContext.exists_tells (reach_allocatorInv h) (.of_map _ (views_sound.good h).inv.nodup)

variable {t : Tid} {o : Op} {k : o.Ans → Drv Unit} (hp : c.pool t = some (.vis o k))

include hp

theorem reach_by : o.By c.world t := by
  obtain ⟨p, hcall, hleads⟩ := reach_inCall h hp
  exact (hleads.only (call_by hcall)).1.1

/-- A request that acts for a handle is current. -/
theorem reach_actsFor {fo : FileObject} (ht : t = .ioctl) (hfo : c.world.req.fileObject = some fo)
    (hacts : o.acts) : c.world.ActsFor fo := by
  have hpre := current_sound.about (reach_placed h) hp ((mmio_sound.about h hp trivial).2) fun _ => current_known
  exact ⟨hfo, hpre.1 ht hacts fo hfo⟩

/-- A record that is about to be inserted is not listed. -/
theorem reach_unlisted {m : UserMapping} (ho : o = .locked (.insertMapping m) ∨ o = .locked (.appendMapping m)) :
    m ∉ c.world.ctx.mappingList := by
  have hwork : c.world.work t = { held := some ⟨m.addr, some m.process, false⟩ } := by
    have hallows := (reach_works h hp).1
    rcases ho with rfl | rfl <;> exact hallows
  intro hm
  have hheld : (⟨m.addr, some m.process, false⟩ : InHand) ∈ c.world.custody.items (some t) := by
    show _ ∈ (c.world.work t).items
    rw [hwork]
    exact List.mem_singleton_self _
  have hlisted : m.inHand ∈ c.world.custody.items none := List.mem_map_of_mem hm
  have hsame := Allotted.unique placeOf_holder (reach_custody h) hheld hlisted rfl
  cases hsame.1

variable {e : Choice} {x : o.Ans} {w : World} (he : c.world.exec t o e = some (x, w))

include he

theorem reach_exec : Reach driver anyStep (c.set w t (some (k x))) := h.step (.exec hp trivial he)

/-- A fence finds nothing listed: what is listed is current, and would be so before and after it. -/
theorem reach_fence (ho : o = .locked .fence) : c.world.ctx.mappingList = [] := by
  subst ho
  have hctx : w.ctx = { c.world.ctx.reclaimTlbs with resetGeneration := c.world.ctx.resetGeneration + 1 } :=
    (World.exec_frame he).ctx
  apply List.eq_nil_iff_forall_not_mem.mpr
  intro m hm
  have hbefore : c.world.fileGen m.fileObject = c.world.ctx.resetGeneration :=
    (reach_currentInv h).current _ (.inl ⟨m, hm, rfl⟩)
  have hafter : w.fileGen m.fileObject = w.ctx.resetGeneration := by
    apply (reach_currentInv (reach_exec h hp he)).current
    refine .inl ⟨m, ?_, rfl⟩
    rw [Config.set_world, hctx]
    exact hm
  rw [(World.exec_frame he).fileGen id, hctx, hbefore] at hafter
  have hne : c.world.ctx.resetGeneration ≠ c.world.ctx.resetGeneration + 1 := by
    intro heq
    have hnat := congrArg UInt64.toNat heq
    have hlt := c.world.ctx.resetGeneration.toNat_lt
    rw [UInt64.toNat_add] at hnat
    have hone : (1 : UInt64).toNat = 1 := rfl
    omega
  exact hne hafter

/-- What an operation does to the tables, its answer tells. -/
theorem reach_does {s s' : WindowTenancy} (hs : c.world.ctx.Tells s) (hs' : w.ctx.Tells s') :
    (o.act x = none → s' = s) ∧ ∀ a, o.act x = some a → s.Does a s' := by
  have hctx := (World.exec_frame he).ctx
  have hby := reach_by h hp
  cases o with
  | locked sec =>
    obtain ⟨rfl, -, -⟩ := exec_locked he
    rw [hctx] at hs'
    apply Section.does sec hs hs' (reach_allocatorInv h)
    · intro hsec
      exact reach_fence h hp he (by rw [hsec])
    · rintro m (hsec | hsec)
      · exact reach_unlisted h hp (.inl (by rw [hsec]))
      · exact reach_unlisted h hp (.inr (by rw [hsec]))
  | store f =>
    have hf : TableFrame f := allocator_sound.about h hp trivial
    rw [hctx] at hs'
    exact ⟨fun _ => (hs.congr (hf _).1 (hf _).2.1).eq hs', fun _ ha => by cases ha⟩
  | _ =>
    rw [hctx] at hs'
    exact ⟨fun _ => hs.eq hs', fun _ ha => by cases ha⟩

/-- Every act is a rightful one. -/
theorem reach_rightful {a : WindowAct} (ha : o.act x = some a) : a.Rightful c.world t := by
  have hby := reach_by h hp
  cases o with
  | locked sec =>
    obtain ⟨hx, -, -⟩ := exec_locked he
    cases t with
    | ioctl =>
      rcases hby with hfile | rfl | rfl
      · have hacts : sec ≠ .anyMapping := by
          rintro rfl
          exact hfile
        obtain ⟨fo, hfo, hclient⟩ := Section.act_ofFile hfile hx ha
        exact hclient.rightful (reach_actsFor h hp rfl hfo hacts)
      · cases ha
      · cases ha
        exact .inr ⟨rfl, reach_fence h hp he rfl⟩
    | hardware =>
      obtain rfl : sec = .sweepAll := hby
      cases ha
      exact .inl rfl
    | cleanup fo =>
      obtain rfl : sec = .sweepFile fo := hby
      cases ha
      rfl
    | power => exact hby.elim
    | create fo => exact hby.elim
  | _ => cases ha

end Reached

/-! ## Whole runs -/

/-- The acts of a run, latest first. -/
def chronicle : Observer DriverSig Tid World (List WindowAct) where
  initial _ g := g = []
  note _ o x _ g := (o.act x).toList ++ g

/-- The tables are a tenancy that the acts so far have led to. -/
theorem reach_runs {c : WatchedConfig (List WindowAct)} (h : Reach (driver.observe chronicle) anyStep c) :
    ∃ s : WindowTenancy, c.world.1.ctx.Tells s ∧ Tenancy.empty.Runs c.world.2 s := by
  obtain ⟨w, hw, hr⟩ := h
  induction hr with
  | refl =>
    obtain ⟨w, g⟩ := w
    obtain ⟨⟨buffer, rfl⟩, rfl⟩ : w.Initial ∧ g = [] := hw
    exact ⟨.empty, ⟨rfl, rfl⟩, .start⟩
  | @tail c₁ c₂ hr hs ih =>
    obtain ⟨s, hs₁, hruns⟩ := ih
    have hreach : Reach driver anyStep c₁.forget := reach_unwatched (h := ⟨w, hw, hr⟩)
    have hsame : c₂.world.1.ctx = c₁.world.1.ctx → c₂.world.2 = c₁.world.2 →
        ∃ s : WindowTenancy, c₂.world.1.ctx.Tells s ∧ Tenancy.empty.Runs c₂.world.2 s := by
      intro hctx hacts
      rw [hctx, hacts]
      exact ⟨s, hs₁, hruns⟩
    cases hs with
    | begins _ hb => exact hsame (begins_ctx hb.1) hb.2
    | ends _ he =>
      have he₁ : _ = World.leave _ _ := he.1
      exact hsame (by rw [Config.set_world, he₁, World.leave_ctx]) he.2
    | env he =>
      rcases he with ⟨he, hacts⟩ | ⟨-, n, hdrift⟩
      · exact hsame (environment_ctx he) hacts
      · cases hdrift
    | @exec t o k e x w' hpool _ he =>
      obtain ⟨he, -, hnote⟩ := watched_exec he
      obtain ⟨s', hs'⟩ := reach_tells (reach_exec hreach hpool he)
      obtain ⟨hidle, hdoes⟩ := reach_does hreach hpool he hs₁ hs'
      refine ⟨s', hs', ?_⟩
      rw [Config.set_world, hnote]
      show Tenancy.empty.Runs ((o.act x).toList ++ c₁.world.2) s'
      cases ha : o.act x with
      | none =>
        rw [hidle ha]
        exact hruns
      | some a => exact .act hruns (hdoes a ha)

/-- The tables refine a tenancy, and are what its history says. In every reachable state the owner table and the
mapping list are those of the tenancy that the answers of the sections so far have led to, each act possible
when it was answered and a rightful one. So a window is a handle's exactly if ALLOCATE_TLB gave it to the handle
and since then it was not freed, the handle not closed and nothing reset or removed; and a record is listed
exactly if it was inserted and since then not unmapped, its handle not closed and nothing reset or removed. -/
theorem tables_refine_tenancy {c : WatchedConfig (List WindowAct)} (h : Reach (driver.observe chronicle) anyStep c) :
    (∃ s : WindowTenancy, c.world.1.ctx.Tells s ∧ Tenancy.empty.Runs c.world.2 s) ∧
    (∀ i fo, c.world.1.ctx.tlbOwner i = some fo ↔ Since (.takes fo i) (TenancyAct.Vacates fo i) c.world.2) ∧
    (∀ m, m ∈ c.world.1.ctx.mappingList ↔
      Since (.puts m) (TenancyAct.Removes UserMapping.fileObject m) c.world.2) ∧
    ∀ t o k e x w a, c.pool t = some (.vis o k) →
      (driver.observe chronicle).exec t o e c.world = some (x, w) → o.act x = some a →
      w.2 = a :: c.world.2 ∧ WindowAct.Rightful c.world.1 t a := by
  obtain ⟨s, hs, hruns⟩ := reach_runs h
  refine ⟨⟨s, hs, hruns⟩, fun i fo => ?_, fun m => ?_, fun t o k e x w a hp he ha => ?_⟩
  · rw [← hs.tenant]
    exact hruns.tenant_iff
  · rw [← hs.items]
    exact hruns.mem_iff
  · obtain ⟨he, -, hnote⟩ := watched_exec he
    refine ⟨?_, reach_rightful (reach_unwatched h) hp he ha⟩
    rw [hnote]
    show (o.act x).toList ++ c.world.2 = _
    rw [ha]
    rfl

/-- Handle 1 has window 0, which it allocated. -/
theorem tables_refine_tenancy_allocated : ∃ c : WatchedConfig (List WindowAct),
    Reach (driver.observe chronicle) anyStep c ∧ c.world.2 = [.takes 1 0] ∧ c.world.1.ctx.tlbOwner 0 = some 1 := by
  have hplay : (WatchedConfig.play chronicle (fun _ _ _ => true) (allocatingRun.map .driver)
      (idle.watched [])).any (fun c => c.world.2 == [.takes 1 0]) = true := by decide
  obtain ⟨c, hreach, hend⟩ := WatchedConfig.exists_reach (fun _ _ _ _ => trivial) rfl hplay
  have hacts : c.world.2 = [.takes 1 0] := beq_iff_eq.mp hend
  refine ⟨c, hreach, hacts, ((tables_refine_tenancy hreach).2.1 0 1).mpr ?_⟩
  rw [hacts]
  exact ⟨[], [], rfl, fun _ hb => by cases hb⟩

/-! ## Handles are isolated -/

/-- Operations that are neither a request's nor a cleanup's of the handle, and end no tenancy. -/
structure Sparing (fo : FileObject) (t : Tid) (o : Op) (w : World) : Prop where
  request : t = .ioctl → w.req.fileObject ≠ some fo
  cleanup : t ≠ .cleanup fo
  reset : o ≠ .locked .fence
  removal : o ≠ .locked .sweepAll

theorem Op.act_ends {o : Op} {x : o.Ans} (h : o.act x = some .ends) : o = .locked .fence ∨ o = .locked .sweepAll := by
  cases o with
  | locked s =>
    cases s with
    | fence => exact .inl rfl
    | sweepAll => exact .inr rfl
    | insertMapping m => simp [act, Section.act] at h
    | freeTlb fo i => simp [act, Section.act] at h
    | takeMapping fo va =>
      obtain ⟨m, -, hm⟩ := Option.map_eq_some_iff.mp h
      cases hm
    | allocateTlb fo =>
      obtain ⟨i, -, hi⟩ := Option.map_eq_some_iff.mp h
      cases hi
    | _ => cases h
  | _ => cases h

/-- A rightful act of somebody else does not concern the handle. -/
theorem Sparing.not_concerns {fo : FileObject} {t : Tid} {o : Op} {w : World} (h : Sparing fo t o w) {x : o.Ans}
    {a : WindowAct} (ha : o.act x = some a) (hr : WindowAct.Rightful w t a) :
    ¬ a.Concerns UserMapping.fileObject fo := by
  intro hc
  cases a with
  | takes fo' i | returns fo' i =>
    obtain rfl : fo' = fo := hc
    exact h.request hr.1 hr.2.1
  | puts m | drops m =>
    obtain rfl : m.fileObject = fo := hc
    exact h.request hr.1 hr.2.1
  | leaves fo' =>
    obtain rfl : fo' = fo := hc
    exact h.cleanup hr
  | ends =>
    rcases Op.act_ends ha with rfl | rfl
    · exact h.reset rfl
    · exact h.removal rfl

/-- Handles are isolated from each other. From any reachable state, through any run in which no request and no cleanup of a
handle performs an operation, no reset is armed and the device is not removed: the handle has the same windows
and the same mapping records, in the same order, whatever the other handles do. -/
theorem others_leave_handle_alone {c c' : DriverConfig} (h : Reach driver anyStep c) {fo : FileObject}
    (hr : Run driver (Sparing fo) c c') :
    (∀ i, c'.world.ctx.tlbOwner i = some fo ↔ c.world.ctx.tlbOwner i = some fo) ∧
    (c'.world.ctx.mappingList.filter fun m => m.fileObject == fo) =
      c.world.ctx.mappingList.filter fun m => m.fileObject == fo := by
  have hshare : Reach driver anyStep c' ∧ ∀ s s' : WindowTenancy, c.world.ctx.Tells s → c'.world.ctx.Tells s' →
      Tenancy.SameShare fo s s' := by
    induction hr with
    | refl =>
      refine ⟨h, fun s s' hs hs' => ?_⟩
      rw [hs.eq hs']
      exact .refl s
    | @tail c₁ c₂ _ hstep ih =>
      obtain ⟨hreach, hbefore⟩ := ih
      have hsame : Reach driver anyStep c₂ → c₂.world.ctx = c₁.world.ctx → Reach driver anyStep c₂ ∧
          ∀ s s' : WindowTenancy, c.world.ctx.Tells s → c₂.world.ctx.Tells s' → Tenancy.SameShare fo s s' := by
        intro hreach' hctx
        rw [hctx]
        exact ⟨hreach', hbefore⟩
      cases hstep with
      | begins hnone hb => exact hsame (hreach.step (.begins hnone hb)) (begins_ctx hb)
      | ends hpool he =>
        have hleave : _ = World.leave _ _ := he
        exact hsame (hreach.step (.ends hpool he)) (by rw [Config.set_world, hleave, World.leave_ctx])
      | env he => exact hsame (hreach.step (.env he)) (environment_ctx he)
      | @exec t o k e x w hpool hspare he =>
        have hreach' := reach_exec hreach hpool he
        refine ⟨hreach', fun s s₂ hs hs₂ => ?_⟩
        obtain ⟨s₁, hs₁⟩ := reach_tells hreach
        obtain ⟨hidle, hdoes⟩ := reach_does hreach hpool he hs₁ hs₂
        apply (hbefore s s₁ hs hs₁).trans
        cases ha : o.act x with
        | none =>
          rw [hidle ha]
          exact .refl s₁
        | some a => exact (hdoes a ha).sameShare (hspare.not_concerns ha (reach_rightful hreach hpool he ha))
  obtain ⟨hreach, hall⟩ := hshare
  obtain ⟨s, hs⟩ := reach_tells h
  obtain ⟨s', hs'⟩ := reach_tells hreach
  obtain ⟨htenant, hitems⟩ := hall s s' hs hs'
  rw [hs.tenant, hs'.tenant] at htenant
  rw [hs.items, hs'.items] at hitems
  exact ⟨htenant, hitems⟩

/-- Handle 1 has window 0; then handle 2 is opened, allocates a window and is closed. -/
def twoTenants : List Move :=
  opens 2 0 ++ [.ioctl { allocateRequest with fileObject := some 2 } .allocateTlb 0, .ops .ioctl (plainOps 10),
    .ends .ioctl, .cleanup 2 0, .ops (.cleanup 2) (plainOps 1), .ends (.cleanup 2)]

/-- The operation is none of handle 1, and no sweep of all, as a test. -/
def sparingTest (t : Tid) (o : Op) (w : World) : Bool :=
  !(t == .ioctl && w.req.fileObject == some 1) && t != .cleanup 1 &&
    match o with
    | .locked .fence | .locked .sweepAll => false
    | _ => true

theorem sparingTest_implies : DriverConfig.Implies sparingTest (Sparing 1) := by
  intro t o w h
  simp only [sparingTest, Bool.and_eq_true, Bool.not_eq_true', Bool.and_eq_false_imp, beq_iff_eq, bne_iff_ne,
    beq_eq_false_iff_ne] at h
  obtain ⟨⟨hrequest, hcleanup⟩, hends⟩ := h
  refine ⟨hrequest, hcleanup, ?_, ?_⟩
  · rintro rfl
    cases hends
  · rintro rfl
    cases hends

/-- Handle 2 comes and goes, and window 0 is still handle 1's. -/
theorem others_leave_handle_alone_tenants : ∃ c c' : DriverConfig,
    Reach driver anyStep c ∧ Run driver (Sparing 1) c c' ∧
    c.world.ctx.tlbOwner 0 = some 1 ∧ c'.world.files 2 = .closed ∧ c'.world.hist (.cleanup 2) ≠ [] ∧
    c'.world.ctx.tlbOwner 0 = some 1 := by
  have hplay : (DriverConfig.play (fun _ _ _ => true) allocatingRun idle).any (fun c =>
      c.world.ctx.tlbOwner 0 == some 1 && (DriverConfig.play sparingTest twoTenants c).any fun c' =>
        c'.world.files 2 == .closed && !(c'.world.hist (.cleanup 2)).isEmpty) = true := by decide
  obtain ⟨c, hreach, hend⟩ := DriverConfig.exists_reach (fun _ _ _ _ => trivial) hplay
  simp only [Bool.and_eq_true, beq_iff_eq, Option.any_eq_true, Bool.not_eq_true', List.isEmpty_eq_false_iff] at hend
  obtain ⟨howner, c', hrest, hclosed, hswept⟩ := hend
  have hrun : Run driver (Sparing 1) c c' := DriverConfig.run_of_play sparingTest_implies hrest
  exact ⟨c, c', hreach, hrun, howner, hclosed, hswept, ((others_leave_handle_alone hreach hrun).1 0).mpr howner⟩

end TtWind
