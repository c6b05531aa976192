import TtWind.Laws.Allocator
import TtWind.Laws.Discipline
import TtWind.Laws.Handles
import TtWind.Laws.Regions

/-!
# Resources belong to current handles

RESET_DEVICE bumps the generation only when no record is listed, and takes every window
back in the same section. A request acts for its handle only past the generation fence,
and no other thread gives a handle anything. So what a handle holds, it holds under the
device's generation; and while a reset is in flight nothing is held, no buffer is
advertised and the saved config is good to restore.
-/

set_option autoImplicit false

namespace TtWind

open TtWind.Effect TtWind.Effect.Prog TtWind.Effect.Protocol

/-! ## The life of a handle -/

/-- A handle is created while it is opening, and while no request of it executes. -/
structure Phases (L : Tid → Prop) (w : World) : Prop where
  opening : ∀ fo, L (.create fo) → w.files fo = .opening
  idle : ∀ fo, L (.create fo) → ¬ (L .ioctl ∧ w.req.fileObject = some fo)
  closing : ∀ fo, L (.cleanup fo) → w.files fo = .closing

/-- No thread changes the phase of a handle but by its beginning and its end. -/
def phases : Protocol DriverSig Tid World where
  inv := Phases
  rely _ _ _ := True
  guar _ _ _ := True

theorem phases_begins {L : Tid → Prop} {t : Tid} {p : Drv Unit} {w w' : World}
    (h : Begins L t p w w') (hinv : Phases L w) : Phases (fun u => u = t ∨ L u) w' := by
  -- the phase of another handle is as it was
  have hother : ∀ {fo fo' : FileObject} {ph : FilePhase}, w.files fo' ≠ w.files fo →
      Function.update w.files fo ph fo' = w.files fo' := by
    intro fo fo' ph hne
    exact Function.update_of_ne (fun he => hne (by rw [he])) _ _
  cases h with
  | ioctl r code p _ _ hopen =>
    refine ⟨fun fo hl => ?_, fun fo hl => ?_, fun fo hl => ?_⟩
    · exact hinv.opening fo (hl.resolve_left (by simp))
    · rintro ⟨-, hfo⟩
      have hphase := hinv.opening fo (hl.resolve_left (by simp))
      rw [hopen fo hfo] at hphase
      cases hphase
    · exact hinv.closing fo (hl.resolve_left (by simp))
  | power cb p | prepare resources p | release p =>
    refine ⟨fun fo hl => ?_, fun fo hl hio => ?_, fun fo hl => ?_⟩
    · exact hinv.opening fo (hl.resolve_left (by simp))
    · exact hinv.idle fo (hl.resolve_left (by simp)) ⟨hio.1.resolve_left (by simp), hio.2⟩
    · exact hinv.closing fo (hl.resolve_left (by simp))
  | create fo p hclosed hidle =>
    refine ⟨fun fo' hl => ?_, fun fo' hl hio => ?_, fun fo' hl => ?_⟩
    · rcases hl with hl | hl
      · obtain rfl : fo' = fo := by simpa using hl
        exact Function.update_self _ _ _
      · have hphase := hinv.opening fo' hl
        exact (hother (by rw [hphase, hclosed]; simp)).trans hphase
    · have hlive : L .ioctl := hio.1.resolve_left (by simp)
      rcases hl with hl | hl
      · obtain rfl : fo' = fo := by simpa using hl
        exact hidle ⟨hlive, hio.2⟩
      · exact hinv.idle fo' hl ⟨hlive, hio.2⟩
    · have hphase := hinv.closing fo' (hl.resolve_left (by simp))
      exact (hother (by rw [hphase, hclosed]; simp)).trans hphase
  | cleanup fo p hopen =>
    refine ⟨fun fo' hl => ?_, fun fo' hl hio => ?_, fun fo' hl => ?_⟩
    · have hphase := hinv.opening fo' (hl.resolve_left (by simp))
      exact (hother (by rw [hphase, hopen]; simp)).trans hphase
    · exact hinv.idle fo' (hl.resolve_left (by simp)) ⟨hio.1.resolve_left (by simp), hio.2⟩
    · rcases hl with hl | hl
      · obtain rfl : fo' = fo := by simpa using hl
        exact Function.update_self _ _ _
      · have hphase := hinv.closing fo' hl
        exact (hother (by rw [hphase, hopen]; simp)).trans hphase

theorem phases_ends {L : Tid → Prop} {t : Tid} {w : World} (hl : L t) (hinv : Phases L w) :
    Phases (fun u => u ≠ t ∧ L u) (w.leave t) := by
  have hreq : (w.leave t).req = w.req := by cases t <;> rfl
  have hfiles : ∀ fo, t ≠ .create fo → t ≠ .cleanup fo → (w.leave t).files fo = w.files fo := by
    intro fo hcr hcl
    cases t with
    | create fo' =>
      have hne : fo ≠ fo' := fun he => hcr (by rw [he])
      exact Function.update_of_ne hne _ _
    | cleanup fo' =>
      have hne : fo ≠ fo' := fun he => hcl (by rw [he])
      exact Function.update_of_ne hne _ _
    | _ => rfl
  -- a handle is not both being created and being cleaned up
  have hclash : ∀ fo, ¬ (L (.create fo) ∧ L (.cleanup fo)) := by
    rintro fo ⟨hcr, hcl⟩
    have hphase := hinv.opening fo hcr
    rw [hinv.closing fo hcl] at hphase
    cases hphase
  refine ⟨fun fo h => ?_, fun fo h hio => ?_, fun fo h => ?_⟩
  · rw [hfiles fo (Ne.symm h.1) fun ht => hclash fo ⟨h.2, ht ▸ hl⟩]
    exact hinv.opening fo h.2
  · rw [hreq] at hio
    exact hinv.idle fo h.2 ⟨hio.1.2, hio.2⟩
  · rw [hfiles fo (fun ht => hclash fo ⟨ht ▸ hl, h.2⟩) (Ne.symm h.1)]
    exact hinv.closing fo h.2

theorem phases_sound : phases.Sound driver where
  refl _ _ := trivial
  trans _ _ _ _ _ _ := trivial
  initial _ _ := ⟨fun _ h => h.elim, fun _ h => h.elim, fun _ h => h.elim⟩
  compat _ _ _ _ _ _ _ _ _ _ _ := trivial
  begins L t p w w' hb _ hinv _ := by
    refine ⟨phases_begins hb hinv, fun _ _ => trivial, ?_⟩
    have hkeeps : phases.Keeps driverMachine t (fun _ => True) p := by
      refine Keeps.of_within (Stable.true t) (fun _ _ _ _ _ => trivial) ?_ (only_true p)
      intro o _ w L e x w' _ _ hinv _ he
      have hf := World.exec_frame he
      refine ⟨⟨?_, ?_, ?_⟩, trivial, trivial, trivial⟩
      · rw [hf.files]
        exact hinv.opening
      · rw [hf.fileObject]
        exact hinv.idle
      · rw [hf.files]
        exact hinv.closing
    exact (hkeeps w' trivial).mono fun _ _ _ => trivial
  ends L t w w' he hl hinv _ _ := by
    obtain rfl : w' = w.leave t := he
    exact ⟨phases_ends hl hinv, fun _ _ => trivial⟩
  env L w w' he hinv _ := by
    have hsame : w'.files = w.files ∧ w'.req = w.req := by cases he <;> exact ⟨rfl, rfl⟩
    obtain ⟨hfiles, hreq⟩ := hsame
    refine ⟨⟨?_, ?_, ?_⟩, fun _ _ => trivial⟩
    · rw [hfiles]
      exact hinv.opening
    · rw [hreq]
      exact hinv.idle
    · rw [hfiles]
      exact hinv.closing

/-! ## The protocol -/

/-- What handles hold, they hold under the device's generation; while a reset is in flight
nothing is held, and no buffer is advertised but by the request that restricts the device. -/
structure CurrentInv (w : World) : Prop where
  current : ∀ fo, w.ctx.holds fo → w.fileGen fo = w.ctx.resetGeneration
  vacant : w.ctx.needsHwInit = true → ∀ fo, ¬ w.ctx.holds fo
  saved : w.ctx.needsHwInit = true → w.ctx.savedConfigValid = true
  unverified : w.ctx.needsHwInit = true → w.ctx.sysmemVerified = true → w.arcLock = some .ioctl

/-- No handle is given anything, and the generation stays. -/
def Shrinks (w w' : World) : Prop :=
  w'.ctx.resetGeneration = w.ctx.resetGeneration ∧ ∀ fo, w'.ctx.holds fo → w.ctx.holds fo

/-- What the other threads leave to a request. -/
structure Deferred (w w' : World) : Prop where
  shrinks : Shrinks w w'
  unlisted : w.ctx.mappingList = [] → w'.ctx.mappingList = []
  needs : w'.ctx.needsHwInit = w.ctx.needsHwInit
  valid : w'.ctx.savedConfigValid = w.ctx.savedConfigValid
  fileObject : w'.req.fileObject = w.req.fileObject
  lock : w.arcLock = some .ioctl → w'.arcLock = some .ioctl
  verified : w.arcLock = some .ioctl → w'.ctx.sysmemVerified = w.ctx.sysmemVerified

/-- The operation acts on the tables for a handle, maps memory for it, or writes a register. -/
def Op.acts : Op → Prop
  | .locked s => s ≠ .anyMapping
  | .mapLockedPages _ _ _ | .mapView _ _ _ | .mmioWrite _ _ _ => True
  | _ => False

/-- A request may give its own handle something, and may fence when nothing is listed; a
create stamps its own handle. -/
def current : Protocol DriverSig Tid World where
  allow := Placed
  inv _ w := CurrentInv w
  known L w := Phases L w ∧ w.ctx.AllocatorInv ∧ MmioInv L w
  rely t w w' :=
    match t with
    | .ioctl => Deferred w w' ∧ ∀ fo, w.req.fileObject = some fo → w'.fileGen fo = w.fileGen fo
    | .create fo => w'.ctx.holds fo →
        w.ctx.holds fo ∧ w'.ctx.resetGeneration = w.ctx.resetGeneration
    | _ => True
  guar t w w' :=
    (t ≠ .ioctl → t ≠ .hardware → Deferred w w') ∧
      (∀ fo, t ≠ .ioctl → t ≠ .create fo → w'.fileGen fo = w.fileGen fo) ∧
      ∀ fo, w'.ctx.holds fo → (w.ctx.holds fo ∧ w'.ctx.resetGeneration = w.ctx.resetGeneration) ∨
        (t = .ioctl ∧ w.req.fileObject = some fo)
  pre t o w :=
    (t = .ioctl → o.acts → ∀ fo, w.req.fileObject = some fo →
      w.fileGen fo = w.ctx.resetGeneration) ∧
    ∀ fo, t = .cleanup fo → cleanupFoot fo o

theorem Deferred.refl (w : World) : Deferred w w :=
  ⟨⟨rfl, fun _ h => h⟩, id, rfl, rfl, rfl, id, fun _ => rfl⟩

theorem Deferred.trans {u v w : World} (h₁ : Deferred u v) (h₂ : Deferred v w) : Deferred u w where
  shrinks := ⟨h₂.shrinks.1.trans h₁.shrinks.1, fun fo h => h₁.shrinks.2 fo (h₂.shrinks.2 fo h)⟩
  unlisted h := h₂.unlisted (h₁.unlisted h)
  needs := h₂.needs.trans h₁.needs
  valid := h₂.valid.trans h₁.valid
  fileObject := h₂.fileObject.trans h₁.fileObject
  lock h := h₂.lock (h₁.lock h)
  verified h := (h₂.verified (h₁.lock h)).trans (h₁.verified h)

theorem current_steady : current.Steady where
  refl t w := by
    cases t with
    | ioctl => exact ⟨.refl w, fun _ _ => rfl⟩
    | create fo => exact fun h => ⟨h, rfl⟩
    | _ => trivial
  trans t u v w h₁ h₂ := by
    cases t with
    | ioctl =>
      refine ⟨h₁.1.trans h₂.1, fun fo hfo => ?_⟩
      exact (h₂.2 fo (h₁.1.fileObject.trans hfo)).trans (h₁.2 fo hfo)
    | create fo =>
      intro h
      obtain ⟨hv, hgen⟩ := h₂ h
      obtain ⟨hu, hgen'⟩ := h₁ hv
      exact ⟨hu, hgen.trans hgen'⟩
    | _ => trivial

/-! ## The other threads -/

/-- What the code of the other threads does not do: give a handle anything, or stamp one. -/
def outsideFoot : Op → Prop
  | .locked s => s = .sweepAll ∨ ∃ fo, s = .sweepFile fo
  | .setFileGen _ _ => False
  | _ => True

/-- What a placed operation of another thread does to the flags. -/
structure Unrestricting (t : Tid) (o : Op) (w : World) : Prop where
  table : ∀ f, o = .store f → TableFrame f
  needs : (o.effect w.ctx).needsHwInit = w.ctx.needsHwInit
  valid : (o.effect w.ctx).savedConfigValid = w.ctx.savedConfigValid
  verified : (o.effect w.ctx).sysmemVerified = w.ctx.sysmemVerified ∨
    ((t = .hardware ∨ w.arcLock = some t) ∧ ((o.effect w.ctx).sysmemVerified = true →
      w.ctx.sysmemVerified = true ∨ w.ctx.needsHwInit = false))

theorem unrestricting_of_placed {t : Tid} {o : Op} {w : World} (ht : t ≠ .ioctl)
    (h : Placed t o w) : Unrestricting t o w := by
  have hidle : o.effect w.ctx = w.ctx → (∀ f, o ≠ .store f) → Unrestricting t o w := by
    intro hctx hne
    exact ⟨fun f hf => absurd hf (hne f), by rw [hctx], by rw [hctx], .inl (by rw [hctx])⟩
  cases o with
  | store f =>
    rcases h with ⟨-, hlock, hf | rfl | ⟨hio, -⟩ | ⟨hf, hv, hn⟩⟩ | ⟨rfl, hf⟩
    · refine ⟨fun g hg => ?_, hf.arc.needs _, ?_, .inl (hf.verified _)⟩
      · obtain rfl := Op.store.inj hg
        exact hf.arc.table
      · rw [Op.effect, hf w.ctx]
    · refine ⟨fun g hg => ?_, rfl, rfl, .inr ⟨.inr hlock, fun h => by cases h⟩⟩
      obtain rfl := Op.store.inj hg
      exact fun _ => ⟨rfl, rfl, rfl, rfl⟩
    · exact absurd hio ht
    · refine ⟨fun g hg => ?_, hf.needs _, ?_, .inr ⟨.inr hlock, fun _ => .inr hn⟩⟩
      · obtain rfl := Op.store.inj hg
        exact hf.table
      · rw [Op.effect, hf w.ctx]
    · refine ⟨fun g hg => ?_, ?_, ?_, .inr ⟨.inl rfl, fun hv => .inl ((hf w.ctx).2 hv)⟩⟩
      · obtain rfl := Op.store.inj hg
        exact hf.table
      · rw [Op.effect, (hf w.ctx).1]
      · rw [Op.effect, (hf w.ctx).1]
  | locked s =>
    have hframe := Section.run_frame w.ctx s
    refine ⟨(fun _ h => by cases h), ?_, ?_, .inl ?_⟩ <;> rw [Op.effect, hframe]
  | _ => exact hidle rfl fun _ h => by cases h

theorem shrinks_of_tables {w w' : World} (hl : w'.ctx.mappingList = w.ctx.mappingList)
    (ho : w'.ctx.tlbOwner = w.ctx.tlbOwner)
    (hg : w'.ctx.resetGeneration = w.ctx.resetGeneration) : Shrinks w w' := by
  refine ⟨hg, fun fo h => ?_⟩
  rw [DeviceContext.holds, hl, ho] at h
  exact h

/-- The sweeps take from handles, and leave the generation. -/
theorem shrinks_of_outside {t : Tid} {o : Op} {e : Choice} {w w' : World} {x : o.Ans}
    (ho : outsideFoot o) (hf : ∀ f, o = .store f → TableFrame f)
    (he : w.exec t o e = some (x, w')) : Shrinks w w' := by
  have hctx := (World.exec_frame he).ctx
  cases o with
  | store f =>
    have htable := hf f rfl w.ctx
    apply shrinks_of_tables <;> rw [hctx]
    · exact htable.1
    · exact htable.2.1
    · exact htable.2.2.2
  | locked s =>
    refine ⟨?_, fun fo h => ?_⟩
    · rw [hctx]
      rcases ho with rfl | ⟨fo, rfl⟩ <;> rfl
    · rw [hctx] at h
      refine (Section.run_holds h).resolve_right fun hgives => ?_
      rcases ho with rfl | ⟨fo', rfl⟩ <;> exact hgives
  | _ => apply shrinks_of_tables <;> rw [hctx] <;> rfl

theorem unlisted_of_outside {t : Tid} {o : Op} {e : Choice} {w w' : World} {x : o.Ans}
    (ho : outsideFoot o) (hf : ∀ f, o = .store f → TableFrame f)
    (he : w.exec t o e = some (x, w')) (hl : w.ctx.mappingList = []) : w'.ctx.mappingList = [] := by
  rw [(World.exec_frame he).ctx]
  cases o with
  | store f => exact ((hf f rfl w.ctx).1).trans hl
  | locked s =>
    refine Section.run_nil ?_ hl
    rcases ho with rfl | ⟨fo, rfl⟩ <;> trivial
  | _ => exact hl

/-- A step of a thread other than the request's and a create's. -/
theorem exec_outside {t : Tid} {o : Op} {e : Choice} {w w' : World} {x : o.Ans} (ht : t ≠ .ioctl)
    (ho : outsideFoot o) (hp : Placed t o w) (hinv : CurrentInv w)
    (he : w.exec t o e = some (x, w')) : CurrentInv w' ∧ current.guar t w w' := by
  have hf := World.exec_frame he
  have hun := unrestricting_of_placed ht hp
  have hshrinks : Shrinks w w' := shrinks_of_outside ho hun.table he
  have hgen : w'.fileGen = w.fileGen := hf.fileGen fun hs => by
    cases o <;> first | exact hs | exact ho
  have hlock : w.arcLock = some .ioctl → w'.arcLock = some .ioctl :=
    World.exec_holder (l := .arc) he (Ne.symm ht)
  have hneeds : w'.ctx.needsHwInit = w.ctx.needsHwInit := by
    rw [hf.ctx]
    exact hun.needs
  have hvalid : w'.ctx.savedConfigValid = w.ctx.savedConfigValid := by
    rw [hf.ctx]
    exact hun.valid
  have hverified := hun.verified
  rw [← hf.ctx] at hverified
  refine ⟨⟨fun fo h => ?_, fun hn fo h => ?_, fun hn => ?_, fun hn hv => ?_⟩, ?_⟩
  · rw [hgen, hshrinks.1]
    exact hinv.current fo (hshrinks.2 fo h)
  · exact hinv.vacant (hneeds ▸ hn) fo (hshrinks.2 fo h)
  · rw [hvalid]
    exact hinv.saved (hneeds ▸ hn)
  · rw [hneeds] at hn
    apply hlock
    apply hinv.unverified hn
    rcases hverified with hsame | ⟨-, hv'⟩
    · rwa [hsame] at hv
    · exact (hv' hv).resolve_right (by simp [hn])
  · refine ⟨fun _ hhw => ?_, fun _ _ _ => by rw [hgen], fun fo h => .inl ⟨hshrinks.2 fo h, hshrinks.1⟩⟩
    refine ⟨hshrinks, unlisted_of_outside ho hun.table he, hneeds, hvalid, hf.fileObject, hlock,
      fun hl => ?_⟩
    refine hverified.resolve_right fun h => ?_
    rcases h.1 with hh | hh
    · exact hhw hh
    · rw [hl] at hh
      exact ht (Option.some.inj hh).symm

theorem outside_keeps {t : Tid} (ht : t ≠ .ioctl) {K : Op → Prop} (hK : ∀ o, K o → outsideFoot o)
    (hclean : ∀ fo, t = .cleanup fo → ∀ o, K o → cleanupFoot fo o)
    {α : Type} {p : Drv α} (hp : p.Only K) : current.Keeps driverMachine t (fun _ => True) p := by
  refine Keeps.of_within (Stable.true t) (fun o ho _ _ _ => ?_) ?_ hp
  · exact ⟨fun hio => absurd hio ht, fun fo hfo => hclean fo hfo o ho⟩
  · intro o ho w L e x w' _ _ hinv ha he
    obtain ⟨hinv', hguar⟩ := exec_outside ht (hK o ho) ha hinv he
    exact ⟨hinv', hguar, trivial, trivial⟩

/-- A create stamps its handle with the generation it has loaded, unless the handle holds
something under a later one. -/
theorem evtDeviceFileCreate_current (fo : FileObject) :
    current.Keeps driverMachine (.create fo) (fun _ => True) (evtDeviceFileCreate fo) := by
  have hne : Tid.create fo ≠ .ioctl := by simp
  have hpre : ∀ o w, current.pre (.create fo) o w :=
    fun _ _ => ⟨fun hio => absurd hio hne, fun _ hc => by cases hc⟩
  refine Triple.vis (I := fun c w => w.ctx.holds fo →
    w.ctx.resetGeneration = DeviceContext.resetGeneration c) (Stable.true _)
    (fun _ _ _ => hpre _ _) ?_ fun c => ?_
  · intro w L e c w' _ _ hinv ha he
    have he : World.exec (.create fo) .load e w = some (c, w') := he
    obtain ⟨hinv', hguar⟩ := exec_outside (o := .load) hne trivial ha hinv he
    have hctx : w'.ctx = w.ctx := (World.exec_frame he).ctx
    obtain ⟨w₁, hs, -⟩ := World.exec_step he
    obtain ⟨rfl, -⟩ := Prod.mk.inj (Option.some.inj hs)
    exact ⟨hinv', hguar, fun _ => by rw [hctx]⟩
  · refine Triple.vis (I := fun _ _ => True) ?_ (fun _ _ _ => hpre _ _) ?_ fun _ => ?_
    · intro w w' hr h hholds
      obtain ⟨hbefore, hgen⟩ := hr hholds
      exact hgen.trans (h hbefore)
    · intro w L e x w' hstamp _ hinv _ he
      have he : World.exec (.create fo) (.setFileGen fo (DeviceContext.resetGeneration c)) e w =
          some (x, w') := he
      have hf := World.exec_frame he
      have hctx : w'.ctx = w.ctx := hf.ctx
      obtain ⟨w₁, hs, rfl⟩ := World.exec_step he
      obtain ⟨-, rfl⟩ := Prod.mk.inj (Option.some.inj hs)
      have hshrinks : Shrinks w (World.record _ _ _) :=
        shrinks_of_tables (congrArg _ hctx) (congrArg _ hctx) (congrArg _ hctx)
      refine ⟨⟨fun fo' h => ?_, hinv.vacant, hinv.saved, hinv.unverified⟩, ⟨fun _ _ => ?_, ?_, ?_⟩, trivial⟩
      · by_cases hfo : fo' = fo
        · subst hfo
          exact (Function.update_self _ _ _).trans (hstamp h).symm
        · exact (Function.update_of_ne hfo _ _).trans (hinv.current fo' h)
      · exact ⟨hshrinks, id, rfl, rfl, rfl, id, fun _ => rfl⟩
      · intro fo' _ hcr
        exact Function.update_of_ne (fun h => hcr (by rw [h])) _ _
      · exact fun fo' h => .inl ⟨h, rfl⟩
    · exact outside_keeps hne (K := outsideFoot) (fun _ h => h) (fun _ hc => by cases hc)
        ((within_perform _).mpr trivial)

theorem outsideFoot_of_arcFoot {o : Op} (h : arcFoot o) : outsideFoot o := by
  cases o <;> trivial

theorem outsideFoot_of_hardwareFoot {o : Op} (h : hardwareFoot o) : outsideFoot o := by
  cases o <;> first | trivial | exact .inl h

theorem outsideFoot_of_cleanupFoot {fo : FileObject} {o : Op} (h : cleanupFoot fo o) :
    outsideFoot o := by
  cases o <;> first | trivial | exact .inr ⟨fo, h⟩

/-! ## Requests -/

/-- A request past the fence: its handle is current. It holds ArcLock if `held`, and knows
that no reset is in flight if `clear`. -/
structure Admitted (fileObject : Option FileObject) (held clear : Prop) (w : World) : Prop where
  request : w.req.fileObject = fileObject
  fresh : ∀ fo, fileObject = some fo → w.fileGen fo = w.ctx.resetGeneration
  lock : held → w.arcLock = some .ioctl
  unverified : held → w.ctx.needsHwInit = true → w.ctx.sysmemVerified = false
  needs : clear → w.ctx.needsHwInit = false

section Request

variable {fileObject : Option FileObject} {held clear : Prop} {α : Type}

/-- A request whose handle is current may do what it does. -/
theorem pre_of_fresh {o : Op} {w : World}
    (h : ∀ fo, w.req.fileObject = some fo → w.fileGen fo = w.ctx.resetGeneration) :
    current.pre .ioctl o w := ⟨fun _ _ => h, fun _ ht => by cases ht⟩

theorem pre_of_not_acts {o : Op} {w : World} (h : ¬ o.acts) : current.pre .ioctl o w :=
  ⟨fun _ ha => absurd ha h, fun _ ht => by cases ht⟩

theorem Admitted.pre {o : Op} {w : World} (h : Admitted fileObject held clear w) :
    current.pre .ioctl o w :=
  pre_of_fresh fun fo hfo => h.fresh fo (h.request.symm.trans hfo)

theorem stable_admitted : current.Stable .ioctl (Admitted fileObject held clear) := by
  rintro w w' ⟨hr, hgen⟩ h
  refine ⟨hr.fileObject.trans h.request, fun fo hfo => ?_, fun hh => hr.lock (h.lock hh),
    fun hh hn => ?_, fun hc => hr.needs.trans (h.needs hc)⟩
  · rw [hgen fo (h.request.trans hfo), hr.shrinks.1]
    exact h.fresh fo hfo
  · rw [hr.verified (h.lock hh)]
    exact h.unverified hh (hr.needs ▸ hn)

/-- A store that lifts the restriction at most, or renews the saved config. -/
def Relaxes (f : DeviceContext → DeviceContext) : Prop :=
  RestrictFrame f ∧ ∀ c, ((f c).needsHwInit = true → c.needsHwInit = true) ∧
    (f c).savedConfigValid = c.savedConfigValid

/-- What a request does besides fencing: it acts for its handle, while it knows that no
reset is in flight. -/
def requestFoot (fileObject : Option FileObject) (held clear : Prop) : Op → Prop
  | .acquire l | .release l => l ≠ .arc ∨ (clear ∧ ¬ held)
  | .locked s => s = .anyMapping ∨ (clear ∧ s.OfFile fileObject)
  | .store f => ArcFrame f ∨ Relaxes f
  | .setFileGen _ _ => False
  | _ => True

/-- What a placed store of a request does to the flags. -/
theorem flags_of_placed {f : DeviceContext → DeviceContext} {w : World}
    (hf : ArcFrame f ∨ Relaxes f) (h : Placed .ioctl (.store f) w) :
    w.arcLock = some .ioctl ∧ TableFrame f ∧
      ((f w.ctx).needsHwInit = true → w.ctx.needsHwInit = true) ∧
      (f w.ctx).savedConfigValid = w.ctx.savedConfigValid ∧
      ((f w.ctx).sysmemVerified = true →
        w.ctx.sysmemVerified = true ∨ w.ctx.needsHwInit = false) := by
  obtain ⟨-, hlock, hstore⟩ : Tid.ioctl.Works ∧ w.arcLock = some .ioctl ∧ w.ctx.ArcStore .ioctl f := by
    rcases h with h | ⟨h, -⟩
    · exact h
    · cases h
  refine ⟨hlock, ?_⟩
  rcases hf with hf | hf
  · refine ⟨hf.table, fun hn => (hf.needs _).symm.trans hn, by rw [hf w.ctx], fun hv => ?_⟩
    rcases hstore with hs | rfl | ⟨-, hs⟩ | ⟨-, -, hn⟩
    · exact .inl ((hs.verified _).symm.trans hv)
    · cases hv
    · exact .inl ((hs w.ctx).2 hv)
    · exact .inr hn
  · exact ⟨hf.1.reset.table, (hf.2 _).1, (hf.2 _).2, fun hv => .inl ((hf.1 w.ctx).2 hv)⟩

/-- A section for the request's own handle gives nobody else anything. -/
theorem holds_of_ofFile {s : Section} {c : DeviceContext} {fo : FileObject}
    (hs : s.OfFile fileObject) (h : (s.run c).2.holds fo) : c.holds fo ∨ fileObject = some fo := by
  rcases Section.run_holds h with h | hgives
  · exact .inl h
  · refine .inr ?_
    cases s with
    | insertMapping m => exact hs.1.trans (congrArg some hgives.2)
    | appendMapping m => exact hs.1.trans (congrArg some hgives)
    | allocateTlb fo' => exact hs.trans (congrArg some hgives.1)
    | _ => exact (hgives : False).elim

theorem generation_of_ofFile {s : Section} (hs : s.OfFile fileObject) (c : DeviceContext) :
    (s.run c).2.resetGeneration = c.resetGeneration := by
  apply Section.run_generation
  rintro rfl
  exact hs

/-- What a step of a request does to the tables and the generation. -/
theorem request_tables {o : Op} {e : Choice} {w w' : World} {x : o.Ans}
    (ho : requestFoot fileObject held clear o) (hp : Placed .ioctl o w)
    (he : w.exec .ioctl o e = some (x, w')) :
    w'.ctx.resetGeneration = w.ctx.resetGeneration ∧
      ∀ fo, w'.ctx.holds fo → w.ctx.holds fo ∨ (clear ∧ fileObject = some fo) := by
  have hctx := (World.exec_frame he).ctx
  have hsame : Shrinks w w' → w'.ctx.resetGeneration = w.ctx.resetGeneration ∧
      ∀ fo, w'.ctx.holds fo → w.ctx.holds fo ∨ (clear ∧ fileObject = some fo) :=
    fun h => ⟨h.1, fun fo hfo => .inl (h.2 fo hfo)⟩
  cases o with
  | store f =>
    obtain ⟨-, htable, -⟩ := flags_of_placed ho hp
    apply hsame
    apply shrinks_of_tables <;> rw [hctx]
    · exact (htable w.ctx).1
    · exact (htable w.ctx).2.1
    · exact (htable w.ctx).2.2.2
  | locked s =>
    rw [hctx]
    rcases ho with rfl | ⟨hc, hs⟩
    · exact ⟨rfl, fun fo h => .inl h⟩
    · exact ⟨generation_of_ofFile hs _, fun fo h => (holds_of_ofFile hs h).imp_right fun hfo => ⟨hc, hfo⟩⟩
  | _ => apply hsame; apply shrinks_of_tables <;> rw [hctx] <;> rfl

/-- What a step of a request does to the flags. -/
theorem request_flags {o : Op} {e : Choice} {w w' : World} {x : o.Ans}
    (ho : requestFoot fileObject held clear o) (hp : Placed .ioctl o w)
    (he : w.exec .ioctl o e = some (x, w')) :
    (w'.ctx.needsHwInit = true → w.ctx.needsHwInit = true) ∧
      w'.ctx.savedConfigValid = w.ctx.savedConfigValid ∧
      (w'.ctx.sysmemVerified = true →
        w.ctx.sysmemVerified = true ∨ w.ctx.needsHwInit = false) := by
  have hctx := (World.exec_frame he).ctx
  have hsame : w'.ctx.needsHwInit = w.ctx.needsHwInit →
      w'.ctx.savedConfigValid = w.ctx.savedConfigValid →
      w'.ctx.sysmemVerified = w.ctx.sysmemVerified →
      (w'.ctx.needsHwInit = true → w.ctx.needsHwInit = true) ∧
        w'.ctx.savedConfigValid = w.ctx.savedConfigValid ∧
        (w'.ctx.sysmemVerified = true →
          w.ctx.sysmemVerified = true ∨ w.ctx.needsHwInit = false) :=
    fun hn hv hs => ⟨fun h => hn ▸ h, hv, fun h => .inl (hs ▸ h)⟩
  cases o with
  | store f =>
    obtain ⟨-, -, hn, hv, hs⟩ := flags_of_placed ho hp
    rw [hctx]
    exact ⟨hn, hv, hs⟩
  | locked s =>
    have hframe := Section.run_frame w.ctx s
    apply hsame <;> rw [hctx, Op.effect, hframe]
  | _ => apply hsame <;> rw [hctx] <;> rfl

theorem request_step {o : Op} {e : Choice} {w w' : World} {x : o.Ans}
    (ho : requestFoot fileObject held clear o) (hp : Placed .ioctl o w) (hinv : CurrentInv w)
    (hw : Admitted fileObject held clear w) (he : w.exec .ioctl o e = some (x, w')) :
    CurrentInv w' ∧ current.guar .ioctl w w' ∧ Admitted fileObject held clear w' := by
  have hf := World.exec_frame he
  obtain ⟨hgen, hholds⟩ := request_tables ho hp he
  obtain ⟨hneeds, hvalid, hverified⟩ := request_flags ho hp he
  have hstamp : w'.fileGen = w.fileGen := hf.fileGen fun hs => by
    cases o <;> first | exact hs | exact ho
  refine ⟨⟨fun fo h => ?_, fun hn fo h => ?_, fun hn => ?_, fun hn hv => ?_⟩, ⟨?_, ?_, fun fo h => ?_⟩,
    ⟨?_, fun fo hfo => ?_, fun hh => ?_, fun hh hn => ?_, fun hc => ?_⟩⟩
  · rw [hstamp, hgen]
    rcases hholds fo h with h | ⟨-, hfo⟩
    · exact hinv.current fo h
    · exact hw.fresh fo hfo
  · rcases hholds fo h with h | ⟨hc, -⟩
    · exact hinv.vacant (hneeds hn) fo h
    · rw [hw.needs hc] at hneeds
      exact absurd (hneeds hn) (by simp)
  · rw [hvalid]
    exact hinv.saved (hneeds hn)
  · have hbefore := hneeds hn
    have hlock := hinv.unverified hbefore ((hverified hv).resolve_right (by simp [hbefore]))
    rw [hf.arcLock fun hm => ?_]
    · exact hlock
    · -- only a request that knows of no reset moves ArcLock here
      have hc : clear := by
        cases o with
        | acquire l | release l => exact (ho.resolve_left (not_not.mpr hm)).1
        | _ => exact (hm : False).elim
      rw [hw.needs hc] at hbefore
      cases hbefore
  · exact fun h => absurd rfl h
  · exact fun _ h => absurd rfl h
  · rcases hholds fo h with h | ⟨-, hfo⟩
    · exact .inl ⟨h, hgen⟩
    · exact .inr ⟨rfl, hw.request.trans hfo⟩
  · exact hf.fileObject.trans hw.request
  · rw [hstamp, hgen]
    exact hw.fresh fo hfo
  · rw [hf.arcLock fun hm => ?_]
    · exact hw.lock hh
    · cases o with
      | acquire l | release l => exact (ho.resolve_left (not_not.mpr hm)).2 hh
      | _ => exact hm
  · have hbefore := hneeds hn
    cases hv : w'.ctx.sysmemVerified with
    | false => rfl
    | true =>
      have hv' := (hverified hv).resolve_right (by simp [hbefore])
      rw [hw.unverified hh hbefore] at hv'
      cases hv'
  · cases hn : w'.ctx.needsHwInit with
    | false => rfl
    | true =>
      have hbefore := hneeds hn
      rw [hw.needs hc] at hbefore
      cases hbefore

theorem request_keeps {p : Drv α} (hp : p.Only (requestFoot fileObject held clear)) :
    current.Keeps driverMachine .ioctl (Admitted fileObject held clear) p := by
  refine Keeps.of_within stable_admitted (fun _ _ _ hw _ => hw.pre) ?_ hp
  intro o ho w L e x w' hw _ hinv ha he
  obtain ⟨hinv', hguar, hw'⟩ := request_step ho ha hinv hw he
  exact ⟨hinv', hguar, hw', trivial⟩

/-- The same, beside a fact the operations and the other threads keep. -/
theorem request_keeps_and {I : World → Prop} (hI : current.Stable .ioctl I)
    (hkeep : ∀ o, requestFoot fileObject held clear o → ∀ {e x w w'},
      World.exec .ioctl o e w = some (x, w') → I w → I w')
    {p : Drv α} (hp : p.Only (requestFoot fileObject held clear)) :
    current.Keeps driverMachine .ioctl (fun w => Admitted fileObject held clear w ∧ I w) p := by
  refine Keeps.of_within (stable_admitted.and hI) (fun _ _ _ hw _ => hw.1.pre) ?_ hp
  intro o ho w L e x w' hw _ hinv ha he
  obtain ⟨hinv', hguar, hw'⟩ := request_step ho ha hinv hw.1 he
  exact ⟨hinv', hguar, ⟨hw', hkeep o ho he hw.2⟩, trivial⟩

theorem requestFoot_of_plain {o : Op} (h : o.plain) : requestFoot fileObject held clear o := by
  cases o <;> trivial

theorem busScope_requestFoot : BusScope (requestFoot fileObject held clear) where
  plain _ := requestFoot_of_plain
  setBusData _ _ _ := trivial

theorem arcScope_requestFoot : ArcScope (fun _ _ => True) (requestFoot fileObject held clear) :=
  arcScope_of (fun _ ho => requestFoot_of_plain ho.plain) (fun _ hf => .inl hf)
    fun _ _ => ⟨trivial, fun _ => trivial⟩

/-- ArcLock is taken, beside a fact about the device context. -/
theorem acquire_current_and {I : World → Prop} (hI : current.Stable .ioctl I)
    (hctx : ∀ w w' : World, w'.ctx = w.ctx → I w → I w') :
    current.Triple driverMachine .ioctl (fun w => Admitted fileObject False False w ∧ I w)
      (acquire .arc) fun _ w => Admitted fileObject True False w ∧ I w := by
  refine Triple.vis (I := fun _ w => Admitted fileObject True False w ∧ I w)
    (stable_admitted.and hI) (fun _ _ _ => pre_of_not_acts id) ?_
    fun _ => Keeps.pure (stable_admitted.and hI)
  rintro w L e x w' ⟨hw, hIw⟩ _ hinv _ he
  have he : World.exec .ioctl (.acquire .arc) e w = some (x, w') := he
  have hIw' : I w' := hctx w w' (World.exec_frame he).ctx hIw
  obtain ⟨w₁, hs, rfl⟩ := World.exec_step he
  simp only [World.step, Option.ite_none_right_eq_some, Option.some.injEq, Prod.mk.injEq] at hs
  obtain ⟨hfree, -, rfl⟩ := hs
  have hunverified : w.ctx.needsHwInit = true → w.ctx.sysmemVerified = false := by
    intro hn
    cases hv : w.ctx.sysmemVerified with
    | false => rfl
    | true =>
      have hlock := hinv.unverified hn hv
      rw [show w.arcLock = none from hfree] at hlock
      cases hlock
  refine ⟨⟨hinv.current, hinv.vacant, hinv.saved, fun _ _ => rfl⟩, ⟨fun h => absurd rfl h,
    fun _ h => absurd rfl h, fun fo h => .inl ⟨h, rfl⟩⟩, ?_, hIw'⟩
  exact ⟨hw.request, hw.fresh, fun _ => rfl, fun _ => hunverified, False.elim⟩

theorem acquire_current :
    current.Triple driverMachine .ioctl (Admitted fileObject False False) (acquire .arc)
      fun _ => Admitted fileObject True False :=
  Triple.weaken (acquire_current_and (I := fun _ => True) (Stable.true _) fun _ _ _ _ => trivial)
    (fun _ h => ⟨h, trivial⟩) fun _ _ h => h.1

theorem release_current :
    current.Triple driverMachine .ioctl (Admitted fileObject True False) (release .arc)
      fun _ => Admitted fileObject False False := by
  refine Triple.vis (I := fun _ => Admitted fileObject False False) stable_admitted
    (fun _ _ _ => pre_of_not_acts id) ?_ fun _ => Keeps.pure stable_admitted
  intro w L e x w' hw _ hinv _ he
  have he : World.exec .ioctl (.release .arc) e w = some (x, w') := he
  obtain ⟨w₁, hs, rfl⟩ := World.exec_step he
  simp only [World.step, Option.ite_none_right_eq_some, Option.some.injEq, Prod.mk.injEq] at hs
  obtain ⟨-, -, rfl⟩ := hs
  refine ⟨⟨hinv.current, hinv.vacant, hinv.saved, fun hn hv => ?_⟩, ⟨fun h => absurd rfl h,
    fun _ h => absurd rfl h, fun fo h => .inl ⟨h, rfl⟩⟩, ?_⟩
  · have hfalse := hw.unverified trivial hn
    rw [show w.ctx.sysmemVerified = true from hv] at hfalse
    cases hfalse
  · exact ⟨hw.request, hw.fresh, False.elim, False.elim, False.elim⟩

theorem arcRegions_current : ArcRegions driverMachine current .ioctl
    (Admitted fileObject False False) (Admitted fileObject True False) where
  steady := current_steady
  plain hp := request_keeps (hp.mono fun _ => requestFoot_of_plain)
  heldPlain hp := request_keeps (hp.mono fun _ => requestFoot_of_plain)
  acquire := acquire_current
  release := release_current
  mail msg := request_keeps (arcSendLocked_within arcScope_requestFoot.toMailScope msg)
  arm := request_keeps (armLocked_within arcScope_requestFoot (fun _ _ => trivial) fun _ hf => .inl hf)
  unverify := request_keeps ((within_perform _).mpr (.inl fun _ => rfl))

/-! ## RESET_DEVICE -/

/-- Under ArcLock, with a config saved that is good to restore. -/
def Saved (w : World) : Prop := w.ctx.mappingList = [] ∧ w.ctx.savedConfigValid = true

/-- Past the fence: nothing is held. -/
structure Emptied (fileObject : Option FileObject) (w : World) : Prop where
  request : w.req.fileObject = fileObject
  lock : w.arcLock = some .ioctl
  valid : w.ctx.savedConfigValid = true
  vacant : ∀ fo, ¬ w.ctx.holds fo

theorem stable_emptied : current.Stable .ioctl (Emptied fileObject) := by
  rintro w w' ⟨hr, -⟩ h
  exact ⟨hr.fileObject.trans h.request, hr.lock h.lock, hr.valid.trans h.valid,
    fun fo hfo => h.vacant fo (hr.shrinks.2 fo hfo)⟩

theorem stable_unlisted : current.Stable .ioctl fun w => w.ctx.mappingList = [] :=
  fun _ _ hr h => hr.1.unlisted h

theorem stable_saved : current.Stable .ioctl Saved :=
  fun _ _ hr h => ⟨hr.1.unlisted h.1, hr.1.valid.trans h.2⟩

/-- A request under ArcLock leaves the mapping list. -/
theorem list_of_requestFoot {o : Op} {e : Choice} {w w' : World} {x : o.Ans}
    (ho : requestFoot fileObject True False o) (he : w.exec .ioctl o e = some (x, w')) :
    w'.ctx.mappingList = w.ctx.mappingList := by
  rw [(World.exec_frame he).ctx]
  cases o with
  | store f => exact (ho.elim (fun hf => hf.table w.ctx) fun hf => hf.1.reset.table w.ctx).1
  | locked s =>
    obtain rfl : s = .anyMapping := ho.resolve_right fun h => h.1
    rfl
  | _ => rfl

theorem keeps_unlisted {p : Drv α} (hp : p.Only (requestFoot fileObject True False)) :
    current.Keeps driverMachine .ioctl
      (fun w => Admitted fileObject True False w ∧ w.ctx.mappingList = []) p :=
  request_keeps_and stable_unlisted
    (fun _ ho {_ _ _ _} he h => (list_of_requestFoot ho he).trans h) hp

theorem keeps_saved {p : Drv α} (hp : p.Only (requestFoot fileObject True False)) :
    current.Keeps driverMachine .ioctl (fun w => Admitted fileObject True False w ∧ Saved w) p := by
  refine request_keeps_and stable_saved (fun o ho {e x w w'} he h => ?_) hp
  refine ⟨(list_of_requestFoot ho he).trans h.1, ?_⟩
  rw [(World.exec_frame he).ctx]
  cases o with
  | store f =>
    refine Eq.trans ?_ h.2
    rcases ho with hf | hf
    · rw [Op.effect, hf w.ctx]
    · exact (hf.2 w.ctx).2
  | locked s =>
    rw [Op.effect, Section.run_frame w.ctx s]
    exact h.2
  | _ => exact h.2

/-- The config is saved, or it was when the device was restricted. -/
theorem saveConfigOnce_current :
    current.Triple driverMachine .ioctl
      (fun w => Admitted fileObject True False w ∧ w.ctx.mappingList = []) saveConfigOnce
      fun status w => if status.ok then Admitted fileObject True False w ∧ Saved w
        else Admitted fileObject True False w := by
  have hstable : current.Stable .ioctl fun w =>
      Admitted fileObject True False w ∧ w.ctx.mappingList = [] := stable_admitted.and stable_unlisted
  refine Triple.vis_known (I := fun c w => (Admitted fileObject True False w ∧
    w.ctx.mappingList = []) ∧ (DeviceContext.needsHwInit c = true → w.ctx.savedConfigValid = true))
    hstable (fun _ _ _ _ _ _ _ => pre_of_not_acts id) ?_ fun c => ?_
  · intro w L e c w' hw _ hinv _ ha he
    have he : World.exec .ioctl .load e w = some (c, w') := he
    obtain ⟨hinv', hguar, hw'⟩ :=
      request_step (o := .load) (requestFoot_of_plain trivial) ha hinv hw.1 he
    have hctx : w'.ctx = w.ctx := (World.exec_frame he).ctx
    obtain ⟨w₁, hs, -⟩ := World.exec_step he
    obtain ⟨rfl, -⟩ := Prod.mk.inj (Option.some.inj hs)
    rw [hctx]
    exact ⟨hinv', hguar, ⟨hw', hw.2⟩, hinv.saved⟩
  · refine Triple.ite (fun hneeds => ?_) fun _ => ?_
    · refine Triple.pure ?_ fun w hw => ⟨hw.1.1, hw.1.2, hw.2 hneeds⟩
      exact hstable.and fun _ _ hr h hn => hr.1.valid.trans (h hn)
    · refine Triple.weaken (P := fun w => Admitted fileObject True False w ∧
        w.ctx.mappingList = []) ?_ (fun _ hw => hw.1) fun _ _ h => h
      refine Triple.bind (p := cfgRead 0 pciCfgSaveBytes) current_steady
        (keeps_unlisted (cfgRead_only busScope_requestFoot.restoring.silent _ _)) fun ⟨data, full⟩ => ?_
      refine Triple.bind (p := store fun c => c.saveConfig data) current_steady
        (keeps_unlisted ((within_perform _).mpr (.inr ⟨fun _ => ⟨rfl, id⟩, fun _ => ⟨id, rfl⟩⟩)))
        fun _ => Triple.ite (fun _ => Triple.pure hstable fun w hw => hw.1) fun _ => ?_
      -- the image is complete
      refine Triple.vis (I := fun _ w => Admitted fileObject True False w ∧ Saved w) hstable
        (fun _ _ _ => pre_of_not_acts id) ?_ fun _ => Triple.pure (stable_admitted.and stable_saved) fun _ h => h
      intro w L e x w' hw _ hinv ha he
      have he : World.exec .ioctl (.store fun c => { c with savedConfigValid := true }) e w =
          some (x, w') := he
      obtain ⟨w₁, hs, rfl⟩ := World.exec_step he
      obtain ⟨-, rfl⟩ := Prod.mk.inj (Option.some.inj hs)
      refine ⟨⟨hinv.current, hinv.vacant, fun _ => rfl, hinv.unverified⟩, ⟨fun h => absurd rfl h,
        fun _ h => absurd rfl h, fun fo h => .inl ⟨h, rfl⟩⟩, ⟨?_, hw.2, rfl⟩⟩
      exact ⟨hw.1.request, hw.1.fresh, hw.1.lock, hw.1.unverified, False.elim⟩

/-- The fence takes every window back; with nothing listed, nothing is held after it. -/
theorem fence_current :
    current.Triple driverMachine .ioctl (fun w => Admitted fileObject True False w ∧ Saved w)
      (locked .fence) fun _ => Emptied fileObject := by
  refine Triple.vis_known (I := fun _ => Emptied fileObject) (stable_admitted.and stable_saved)
    (fun _ _ hw _ _ _ _ => hw.1.pre) ?_ fun _ => Keeps.pure stable_emptied
  intro w L e x w' hw _ hinv hknown _ he
  have he : World.exec .ioctl (.locked .fence) e w = some (x, w') := he
  obtain ⟨w₁, hs, rfl⟩ := World.exec_step he
  simp only [World.step, Option.ite_none_right_eq_some, Option.some.injEq, Prod.mk.injEq] at hs
  obtain ⟨-, -, rfl⟩ := hs
  have hvacant : ∀ fo, ¬ (Section.run .fence w.ctx).2.holds fo := by
    rintro fo (⟨m, hm, -⟩ | ⟨i, hown⟩)
    · rw [show (Section.run .fence w.ctx).2.mappingList = [] from hw.2.1] at hm
      cases hm
    · simp only [Section.run, DeviceContext.reclaimTlbs] at hown
      split at hown
      · cases hown
      · rename_i hout
        exact hout (hknown.2.1.range i (by simp [hown]))
  refine ⟨⟨fun fo h => absurd h (hvacant fo), fun _ => hvacant, fun _ => hw.2.2, hinv.unverified⟩,
    ⟨fun h => absurd rfl h, fun _ h => absurd rfl h, fun fo h => absurd h (hvacant fo)⟩, ?_⟩
  exact ⟨hw.1.request, hw.1.lock trivial, hw.2.2, hvacant⟩

/-- An operation that keeps the tables, while nothing is held. -/
theorem emptied_exec {o : Op} {e : Choice} {w w' : World} {x : o.Ans} (hw : Emptied fileObject w)
    (he : w.exec .ioctl o e = some (x, w')) (hlock : ¬ o.movesLock .arc) (hshrinks : Shrinks w w')
    (hvalid : w'.ctx.savedConfigValid = w.ctx.savedConfigValid) :
    CurrentInv w' ∧ current.guar .ioctl w w' ∧ Emptied fileObject w' := by
  have hf := World.exec_frame he
  have hvacant : ∀ fo, ¬ w'.ctx.holds fo := fun fo hfo => hw.vacant fo (hshrinks.2 fo hfo)
  refine ⟨⟨fun fo hfo => absurd hfo (hvacant fo), fun _ => hvacant, fun _ => ?_, fun _ _ => ?_⟩,
    ⟨fun hn => absurd rfl hn, fun _ hn => absurd rfl hn, fun fo hfo => absurd hfo (hvacant fo)⟩, ?_⟩
  · exact hvalid.trans hw.valid
  · exact (hf.arcLock hlock).trans hw.lock
  · exact ⟨hf.fileObject.trans hw.request, (hf.arcLock hlock).trans hw.lock,
      hvalid.trans hw.valid, hvacant⟩

/-- Past the fence with the handle carried forward. -/
def Carried (fileObject : Option FileObject) (w : World) : Prop :=
  Emptied fileObject w ∧ ∀ fo, fileObject = some fo → w.fileGen fo = w.ctx.resetGeneration

theorem stable_carried : current.Stable .ioctl (Carried fileObject) := by
  intro w w' hr h
  refine ⟨stable_emptied w w' hr h.1, fun fo hfo => ?_⟩
  rw [hr.2 fo (h.1.request.trans hfo), hr.1.shrinks.1]
  exact h.2 fo hfo

theorem carryForward_current :
    current.Triple driverMachine .ioctl (Emptied fileObject) (carryForward fileObject)
      fun _ => Carried fileObject := by
  cases fileObject with
  | none => exact Triple.pure stable_emptied fun w hw => ⟨hw, nofun⟩
  | some fo =>
    refine Triple.vis (I := fun c w => Emptied (some fo) w ∧
      w.ctx.resetGeneration = DeviceContext.resetGeneration c) stable_emptied
      (fun _ _ _ => pre_of_not_acts id) ?_ fun c => ?_
    · intro w L e c w' hw _ _ _ he
      have he : World.exec .ioctl .load e w = some (c, w') := he
      have hctx : w'.ctx = w.ctx := (World.exec_frame he).ctx
      have hshrinks : Shrinks w w' := by apply shrinks_of_tables <;> rw [hctx]
      obtain ⟨hinv', hguar, hw'⟩ := emptied_exec hw he id hshrinks (by rw [hctx])
      obtain ⟨w₁, hs, -⟩ := World.exec_step he
      obtain ⟨rfl, -⟩ := Prod.mk.inj (Option.some.inj hs)
      exact ⟨hinv', hguar, hw', by rw [hctx]⟩
    · refine Triple.vis (I := fun _ => Carried (some fo)) ?_ (fun _ _ _ => pre_of_not_acts id) ?_
        fun _ => Keeps.pure stable_carried
      · exact stable_emptied.and fun _ _ hr h => hr.1.shrinks.1.trans h
      · intro w L e x w' hw _ _ _ he
        have he : World.exec .ioctl (.setFileGen fo (DeviceContext.resetGeneration c)) e w =
            some (x, w') := he
        have hctx : w'.ctx = w.ctx := (World.exec_frame he).ctx
        have hshrinks : Shrinks w w' := by apply shrinks_of_tables <;> rw [hctx]
        obtain ⟨hinv', hguar, hw'⟩ := emptied_exec hw.1 he id hshrinks (by rw [hctx])
        refine ⟨hinv', hguar, hw', fun fo' hfo' => ?_⟩
        obtain rfl : fo = fo' := Option.some.inj hfo'
        rw [hctx, hw.2]
        obtain ⟨w₁, hs, rfl⟩ := World.exec_step he
        obtain ⟨-, rfl⟩ := Prod.mk.inj (Option.some.inj hs)
        exact Function.update_self _ _ _

theorem store_carried {f : DeviceContext → DeviceContext} {Q : World → Prop}
    (hf : TableFrame f) (hvalid : ∀ c, (f c).savedConfigValid = c.savedConfigValid)
    (hQ : current.Stable .ioctl Q)
    (hpost : ∀ w w' : World, Carried fileObject w' → w'.ctx = f w.ctx → Q w') :
    current.Triple driverMachine .ioctl (Carried fileObject) (store f) fun _ => Q := by
  refine Triple.vis (I := fun _ => Q) stable_carried (fun _ _ _ => pre_of_not_acts id) ?_
    fun _ => Keeps.pure hQ
  intro w L e x w' hw _ _ _ he
  have he : World.exec .ioctl (.store f) e w = some (x, w') := he
  have hframe := World.exec_frame he
  have hctx : w'.ctx = f w.ctx := hframe.ctx
  have htable := hf w.ctx
  have hshrinks : Shrinks w w' := by
    apply shrinks_of_tables <;> rw [hctx]
    · exact htable.1
    · exact htable.2.1
    · exact htable.2.2.2
  obtain ⟨hinv', hguar, hw'⟩ := emptied_exec hw.1 he id hshrinks (by rw [hctx, hvalid])
  refine ⟨hinv', hguar, hpost w w' ⟨hw', fun fo hfo => ?_⟩ hctx⟩
  rw [hframe.fileGen id, hshrinks.1]
  exact hw.2 fo hfo

theorem armReset_current :
    current.Triple driverMachine .ioctl
      (fun w => Admitted fileObject True False w ∧ w.ctx.mappingList = []) (armReset fileObject)
      fun _ => Admitted fileObject True False := by
  have hif : ∀ {p : Drv Bool}, p.Only (requestFoot fileObject True False) →
      current.Triple driverMachine .ioctl (fun w => Admitted fileObject True False w ∧ Saved w) p
        fun b w => if b then Admitted fileObject True False w ∧ Saved w
          else Admitted fileObject True False w := by
    intro p hp
    refine Triple.weaken (keeps_saved hp) (fun _ h => h) fun b w hw => ?_
    cases b with
    | true => exact hw
    | false => exact hw.1
  refine ArmOutline.armReset
    (P := fun w : World => Admitted fileObject True False w ∧ w.ctx.mappingList = [])
    (S := fun w => Admitted fileObject True False w ∧ Saved w)
    (K := fun w => Admitted fileObject True False w ∧ Saved w) (F := Emptied fileObject)
    (C := Carried fileObject) (N := Carried fileObject) (V := Admitted fileObject True False) {
    steady := current_steady
    stable := ⟨stable_admitted.and stable_unlisted, stable_admitted.and stable_saved, stable_admitted⟩
    stops := fun w hw => hw.elim (fun h => h.1) fun h => h.1
    present := keeps_unlisted (devicePresent_only busScope_requestFoot.restoring.silent)
    save := saveConfigOnce_current
    marker := keeps_saved (cfgRead_only busScope_requestFoot.restoring.silent _ _)
    mark := fun _ => hif (cfgWrite_only busScope_requestFoot (by decide) _)
    fence := fence_current
    carry := carryForward_current
    restrict := store_carried (fun _ => ⟨rfl, rfl, rfl, rfl⟩) (fun _ => rfl) stable_carried
      fun _ _ hw _ => hw
    unverify := ?_
    target := request_keeps (cfgWrite_only busScope_requestFoot (by decide) _)
    trigger := request_keeps ⟨trivial, fun _ _ => trivial⟩ }
  refine store_carried (fun _ => ⟨rfl, rfl, rfl, rfl⟩) (fun _ => rfl) stable_admitted fun w w' hw hctx => ?_
  refine ⟨hw.1.request, hw.2, fun _ => hw.1.lock, fun _ _ => ?_, False.elim⟩
  rw [hctx]

theorem ioctlResetDevice_current :
    current.Keeps driverMachine .ioctl (Admitted fileObject False False)
      (ioctlResetDevice fileObject) := by
  refine arcRegions_current.ioctlResetDevice
    (B := fun w => Admitted fileObject False False w ∧ w.ctx.mappingList = []) ?_ ?_ armReset_current
  · refine Triple.vis (I := fun busy w => Admitted fileObject False False w ∧
      (busy = false → w.ctx.mappingList = [])) stable_admitted (fun _ _ _ => pre_of_not_acts fun h => h rfl) ?_
      fun busy => ?_
    · intro w L e busy w' hw _ hinv ha he
      have he : World.exec .ioctl (.locked .anyMapping) e w = some (busy, w') := he
      obtain ⟨hinv', hguar, hw'⟩ :=
        request_step (o := .locked .anyMapping) (.inl rfl) ha hinv hw he
      obtain ⟨w₁, hs, rfl⟩ := World.exec_step he
      simp only [World.step, Option.ite_none_right_eq_some, Option.some.injEq, Prod.mk.injEq] at hs
      obtain ⟨-, rfl, rfl⟩ := hs
      refine ⟨hinv', hguar, hw', fun hbusy => ?_⟩
      show w.ctx.mappingList = []
      simpa [Section.run] using hbusy
    · refine Triple.pure ?_ fun w hw => ?_
      · exact stable_admitted.and fun _ _ hr h hb => hr.1.unlisted (h hb)
      · cases busy with
        | true => exact hw.1
        | false => exact ⟨hw.1, hw.2 rfl⟩
  · exact acquire_current_and stable_unlisted fun _ _ hctx h => (congrArg _ hctx).trans h

/-! ## The dispatcher -/

/-- POST_RESET lifts the restriction at most. -/
theorem recoverReset_current :
    current.Keeps driverMachine .ioctl (Admitted fileObject True False) recoverReset := by
  refine request_keeps (recoverReset_within busScope_requestFoot.restoring (fun _ => .inr ?_) (.inr ?_)
    fun _ _ => ⟨trivial, fun _ => trivial⟩)
  · exact ⟨fun _ => ⟨rfl, id⟩, fun _ => ⟨id, rfl⟩⟩
  · exact ⟨fun _ => ⟨rfl, id⟩, fun _ => ⟨nofun, rfl⟩⟩

theorem requestFoot_of_handleFoot {o : Op} (h : handleFoot fileObject o) :
    requestFoot fileObject False True o := by
  cases o with
  | acquire l | release l => exact .inr ⟨trivial, id⟩
  | locked s => exact .inr ⟨trivial, h⟩
  | _ => trivial

theorem requestFoot_of_deviceFoot {o : Op} (h : deviceFoot .state o) :
    requestFoot fileObject False True o := by
  cases o with
  | acquire l | release l => exact .inr ⟨trivial, id⟩
  | store f => exact .inl h
  | _ => trivial

/-- Before the fence the request is known to be the handle's. -/
def Requested (fileObject : Option FileObject) (w : World) : Prop :=
  w.req.fileObject = fileObject

theorem stable_requested : current.Stable .ioctl (Requested fileObject) :=
  fun _ _ hr h => hr.1.fileObject.trans h

/-- A plain operation of a request changes nothing that the protocol is about. -/
theorem plain_current {o : Op} {e : Choice} {w w' : World} {x : o.Ans} (ho : o.plain)
    (hinv : CurrentInv w) (he : w.exec .ioctl o e = some (x, w')) :
    CurrentInv w' ∧ current.guar .ioctl w w' ∧ w'.req.fileObject = w.req.fileObject := by
  have hf := World.exec_frame he
  have hctx : w'.ctx = w.ctx := hf.ctx.trans (by cases o <;> first | rfl | exact (ho : False).elim)
  have hgen : w'.fileGen = w.fileGen := hf.fileGen fun hs => by
    cases o <;> first | exact hs | exact ho
  have hlock : w'.arcLock = w.arcLock := hf.arcLock fun hm => by
    cases o <;> first | exact hm | exact ho
  refine ⟨?_, ⟨fun h => absurd rfl h, fun _ h => absurd rfl h, fun fo h => ?_⟩, hf.fileObject⟩
  · refine ⟨?_, ?_, ?_, ?_⟩ <;> rw [hctx]
    · rw [hgen]
      exact hinv.current
    · exact hinv.vacant
    · exact hinv.saved
    · rw [hlock]
      exact hinv.unverified
  · rw [hctx] at h ⊢
    exact .inl ⟨h, rfl⟩

/-- The fence lets a request through whose handle is current. -/
theorem isStale_current :
    current.Triple driverMachine .ioctl (Requested fileObject) (isStale fileObject)
      fun stale w => if stale then Requested fileObject w else Admitted fileObject False False w := by
  cases fileObject with
  | none =>
    refine Triple.pure stable_requested fun w hw => ?_
    exact ⟨hw, nofun, False.elim, False.elim, False.elim⟩
  | some fo =>
    refine Triple.vis (I := fun g w => Requested (some fo) w ∧ w.fileGen fo = g) stable_requested
      (fun _ _ _ => pre_of_not_acts id) ?_ fun g => ?_
    · intro w L e g w' hw _ hinv _ he
      have he : World.exec .ioctl (.fileGen fo) e w = some (g, w') := he
      obtain ⟨hinv', hguar, hreq⟩ := plain_current (o := .fileGen fo) trivial hinv he
      have hgen : w'.fileGen = w.fileGen := (World.exec_frame he).fileGen id
      obtain ⟨w₁, hs, -⟩ := World.exec_step he
      obtain ⟨rfl, -⟩ := Prod.mk.inj (Option.some.inj hs)
      exact ⟨hinv', hguar, hreq.trans hw, by rw [hgen]⟩
    have hstable : current.Stable .ioctl fun w => Requested (some fo) w ∧ w.fileGen fo = g := by
      intro w w' hr h
      exact ⟨stable_requested w w' hr h.1, (hr.2 fo h.1).trans h.2⟩
    refine Triple.vis (I := fun c w => (Requested (some fo) w ∧ w.fileGen fo = g) ∧
      w.ctx.resetGeneration = DeviceContext.resetGeneration c) hstable
      (fun _ _ _ => pre_of_not_acts id) ?_ fun c => ?_
    · intro w L e c w' hw _ hinv _ he
      have he : World.exec .ioctl .load e w = some (c, w') := he
      obtain ⟨hinv', hguar, hreq⟩ := plain_current (o := .load) trivial hinv he
      have hf := World.exec_frame he
      have hctx : w'.ctx = w.ctx := hf.ctx
      obtain ⟨w₁, hs, -⟩ := World.exec_step he
      obtain ⟨rfl, -⟩ := Prod.mk.inj (Option.some.inj hs)
      exact ⟨hinv', hguar, ⟨hreq.trans hw.1, by rw [hf.fileGen id]; exact hw.2⟩, by rw [hctx]⟩
    · refine Triple.pure (hstable.and fun _ _ hr h => hr.1.shrinks.1.trans h) fun w hw => ?_
      obtain ⟨⟨hreq, hgen⟩, hc⟩ := hw
      by_cases hg : g = DeviceContext.resetGeneration c
      · simp only [hg, ne_eq, not_true_eq_false, decide_false, Bool.false_eq_true, if_false]
        refine ⟨hreq, fun fo' hfo => ?_, False.elim, False.elim, False.elim⟩
        obtain rfl := Option.some.inj hfo
        rw [hgen, hg, hc]
      · simpa [hg] using hreq

/-- A load that has shown no reset to be in flight. -/
theorem clear_current {k : DeviceContext → Drv α} {Q : α → World → Prop}
    (hin : ∀ c, c.needsHwInit = true →
      current.Triple driverMachine .ioctl (Admitted fileObject False False) (k c) Q)
    (hclear : ∀ c, c.needsHwInit = false →
      current.Triple driverMachine .ioctl (Admitted fileObject False True) (k c) Q) :
    current.Triple driverMachine .ioctl (Admitted fileObject False False) (load >>= k) Q := by
  refine Triple.vis (I := fun c w => Admitted fileObject False False w ∧
    w.ctx.needsHwInit = DeviceContext.needsHwInit c) stable_admitted
    (fun _ _ _ => pre_of_not_acts id) ?_ fun c => ?_
  · intro w L e c w' hw _ hinv ha he
    have he : World.exec .ioctl .load e w = some (c, w') := he
    obtain ⟨hinv', hguar, hw'⟩ :=
      request_step (o := .load) (requestFoot_of_plain trivial) ha hinv hw he
    have hctx : w'.ctx = w.ctx := (World.exec_frame he).ctx
    obtain ⟨w₁, hs, -⟩ := World.exec_step he
    obtain ⟨rfl, -⟩ := Prod.mk.inj (Option.some.inj hs)
    exact ⟨hinv', hguar, hw', by rw [hctx]⟩
  · cases hc : DeviceContext.needsHwInit c with
    | true => exact Triple.weaken (hin c hc) (fun _ h => h.1) fun _ _ h => h
    | false =>
      refine Triple.weaken (hclear c hc) (fun w h => ?_) fun _ _ h => h
      exact ⟨h.1.request, h.1.fresh, False.elim, False.elim, fun _ => h.2⟩

theorem admitted_of_clear {w : World} (h : Admitted fileObject False True w) :
    Admitted fileObject False False w :=
  ⟨h.request, h.fresh, False.elim, False.elim, False.elim⟩

theorem requestRegions_current (fileObject : Option FileObject) :
    RequestRegions driverMachine current fileObject (Requested fileObject)
      (Admitted fileObject False False) (Admitted fileObject False True)
      (Admitted fileObject True False) where
  toArcRegions := arcRegions_current
  rejected := by
    refine Triple.vis (I := fun _ => Requested fileObject) stable_requested
      (fun _ _ _ => pre_of_not_acts id) ?_ fun _ => Keeps.pure stable_requested
    intro w L e x w' hw _ hinv _ he
    have he : World.exec .ioctl (.complete .deviceRemoved 0) e w = some (x, w') := he
    obtain ⟨hinv', hguar, hreq⟩ := plain_current (o := .complete .deviceRemoved 0) trivial hinv he
    exact ⟨hinv', hguar, hreq.trans hw⟩
  fence := isStale_current
  started _ h := h.request
  opened _ h := admitted_of_clear h
  clear := clear_current
  status := request_keeps (arcStatusLocked_within arcScope_requestFoot.toMailScope)
  sysmemStatus := request_keeps
    (sysmemStatusLocked_within trivial (fun _ _ _ _ => trivial) fun _ _ _ => trivial)
  reset := ioctlResetDevice_current
  recover := recoverReset_current
  handle hp := Triple.weaken (request_keeps (hp.mono fun _ => requestFoot_of_handleFoot))
    (fun _ h => h) fun _ _ => admitted_of_clear
  configure := Triple.weaken
    (request_keeps ((ioctlConfigureTlb_only _).mono fun _ => requestFoot_of_deviceFoot))
    (fun _ h => h) fun _ _ => admitted_of_clear

end Request

/-! ## The whole system -/

theorem begins_current {L : Tid → Prop} {t : Tid} {p : Drv Unit} {w w' : World}
    (h : Begins L t p w w') : current.Safe driverMachine t p (fun _ => current.post t) w' := by
  have hdone : ∀ {u : Tid} {q : Drv Unit}, current.Keeps driverMachine u (fun _ => True) q →
      current.Safe driverMachine u q (fun _ => current.post u) w' :=
    fun hq => Protocol.Safe.mono (hq w' trivial) fun _ _ _ => trivial
  have hother : ∀ {u : Tid}, (∀ fo, u ≠ .cleanup fo) → ∀ fo, u = .cleanup fo →
      ∀ o, outsideFoot o → cleanupFoot fo o := fun hu fo hfo => absurd hfo (hu fo)
  cases h with
  | ioctl r code p =>
    have hkeeps := (requestRegions_current r.fileObject).evtIoDeviceControl code
    exact Protocol.Safe.mono (hkeeps _ (show Requested r.fileObject _ from rfl)) fun _ _ _ => trivial
  | power cb p =>
    exact hdone (outside_keeps (by simp) (fun _ h => h) (hother (by simp))
      ((power_only cb).mono fun _ ho => outsideFoot_of_arcFoot (arcFoot_of_powerFoot ho)))
  | prepare resources p =>
    refine hdone (outside_keeps (by simp) (K := outsideFoot) (fun _ h => h) (hother (by simp)) ?_)
    refine Within.mono (fun _ ho => outsideFoot_of_hardwareFoot (hardwareFoot_of_prepare ho)) ?_
    exact (evtDevicePrepareHardware_only resources).bind fun _ => trivial
  | release p =>
    exact hdone (outside_keeps (by simp) (fun _ h => h) (hother (by simp))
      (evtDeviceReleaseHardware_only.mono fun _ => outsideFoot_of_hardwareFoot))
  | create fo p => exact hdone (evtDeviceFileCreate_current fo)
  | cleanup fo p =>
    refine hdone (outside_keeps (by simp) (fun _ => outsideFoot_of_cleanupFoot) ?_
      (evtFileCleanup_only fo))
    rintro fo' hfo o ho
    obtain rfl : fo = fo' := Tid.cleanup.inj hfo
    exact ho

theorem currentInv_congr {w w' : World} (hctx : w'.ctx = w.ctx) (hgen : w'.fileGen = w.fileGen)
    (hlock : w'.arcLock = w.arcLock) (h : CurrentInv w) : CurrentInv w' := by
  refine ⟨?_, ?_, ?_, ?_⟩ <;> rw [hctx]
  · rw [hgen]
    exact h.current
  · exact h.vacant
  · exact h.saved
  · rw [hlock]
    exact h.unverified

/-- What keeps the tables, the stamps, ArcLock and the request's handle. -/
theorem current_rely_of_same {t : Tid} {w w' : World} (hctx : w'.ctx = w.ctx)
    (hgen : w'.fileGen = w.fileGen) (hlock : w'.arcLock = w.arcLock)
    (hreq : t = .ioctl → w'.req.fileObject = w.req.fileObject) : current.rely t w w' := by
  cases t with
  | ioctl =>
    refine ⟨⟨?_, ?_, ?_, ?_, hreq rfl, ?_, ?_⟩, fun _ _ => by rw [hgen]⟩
    · exact shrinks_of_tables (congrArg _ hctx) (congrArg _ hctx) (congrArg _ hctx)
    · rw [hctx]
      exact id
    · rw [hctx]
    · rw [hctx]
    · rw [hlock]
      exact id
    · rw [hctx]
      exact fun _ => rfl
  | create fo =>
    intro h
    rw [hctx] at h ⊢
    exact ⟨h, rfl⟩
  | _ => trivial

theorem current_sound : current.Sound driver where
  toSteady := current_steady
  initial w hw := by
    obtain ⟨buffer, rfl⟩ := hw
    have hnone : ∀ fo, ¬ (({} : DeviceContext).holds fo) := by
      rintro fo (⟨m, hm, -⟩ | ⟨i, hi⟩)
      · cases hm
      · cases hi
    exact ⟨fun fo h => absurd h (hnone fo), nofun, nofun, nofun⟩
  compat L t t' w w' hl hl' hne _ hknown hg := by
    obtain ⟨hphases, -, hmmio⟩ := hknown
    cases t' with
    | ioctl =>
      have hhw : t ≠ .hardware := by
        rintro rfl
        exact (hmmio.alone hl).1 hl'
      refine ⟨hg.1 hne hhw, fun fo hfo => hg.2.1 fo hne ?_⟩
      rintro rfl
      exact hphases.idle fo hl ⟨hl', hfo⟩
    | create fo =>
      intro h
      refine (hg.2.2 fo h).resolve_right ?_
      rintro ⟨rfl, hfo⟩
      exact hphases.idle fo hl' ⟨hl, hfo⟩
    | _ => trivial
  begins L t p w w' hb hnl hinv _ := by
    have hctx := begins_ctx hb
    have hsame : w'.fileGen = w.fileGen ∧ w'.arcLock = w.arcLock := by cases hb <;> exact ⟨rfl, rfl⟩
    obtain ⟨hgen, hlock⟩ := hsame
    refine ⟨currentInv_congr hctx hgen hlock hinv, fun t' ht' => ?_, begins_current hb⟩
    refine current_rely_of_same hctx hgen hlock ?_
    rintro rfl
    cases hb with
    | ioctl => exact absurd ht' hnl
    | _ => rfl
  ends L t w w' he _ hinv _ _ := by
    obtain rfl : w' = w.leave t := he
    have hctx : (w.leave t).ctx = w.ctx := w.leave_ctx t
    have hsame : (w.leave t).fileGen = w.fileGen ∧ (w.leave t).arcLock = w.arcLock ∧
        (w.leave t).req = w.req := by cases t <;> exact ⟨rfl, rfl, rfl⟩
    obtain ⟨hgen, hlock, hreq⟩ := hsame
    refine ⟨currentInv_congr hctx hgen hlock hinv, fun t' _ => ?_⟩
    exact current_rely_of_same hctx hgen hlock fun _ => by rw [hreq]
  env L w w' he hinv _ := by
    have hctx := environment_ctx he
    have hsame : w'.fileGen = w.fileGen ∧ w'.arcLock = w.arcLock ∧ w'.req = w.req := by
      cases he <;> exact ⟨rfl, rfl, rfl⟩
    obtain ⟨hgen, hlock, hreq⟩ := hsame
    refine ⟨currentInv_congr hctx hgen hlock hinv, fun t' _ => ?_⟩
    exact current_rely_of_same hctx hgen hlock fun _ => by rw [hreq]

/-- What this protocol builds on holds in every reachable state. -/
theorem current_known {c : DriverConfig} (h : Reach driver Placed c) :
    current.known c.live c.world := by
  have hany : Reach driver anyStep c := h.any
  have hphases : Reach driver phases.allow c := hany
  exact ⟨(phases_sound.good hphases).inv, reach_allocatorInv hany, (mmio_sound.good hany).inv⟩

theorem reach_currentInv {c : DriverConfig} (h : Reach driver anyStep c) : CurrentInv c.world :=
  (current_sound.good (reach_placed h) fun _ => current_known).inv

/-! ## What belongs to whom -/

/-- Sweeping for a handle that holds nothing changes nothing. -/
theorem Section.sweepFile_of_not_holds {c : DeviceContext} {fo : FileObject} (h : ¬ c.holds fo) :
    (Section.run (.sweepFile fo) c).2 = c := by
  have hlist : (c.mappingList.filter fun m => !(m.fileObject == fo)) = c.mappingList := by
    refine List.filter_eq_self.mpr fun m hm => ?_
    have hne : m.fileObject ≠ fo := fun hfo => h (.inl ⟨m, hm, hfo⟩)
    simpa using hne
  have hown : ∀ i, c.tlbOwner i ≠ some fo := fun i hi => h (.inr ⟨i, hi⟩)
  simp only [Section.run, hlist, hown, and_false, if_false]

/-- The cleanup of a handle that holds nothing leaves the device context alone. -/
theorem exec_cleanup_ctx {fo : FileObject} {o : Op} {e : Choice} {w w' : World} {x : o.Ans}
    (ho : cleanupFoot fo o) (h : ¬ w.ctx.holds fo) (he : w.exec (.cleanup fo) o e = some (x, w')) :
    w'.ctx = w.ctx := by
  rw [(World.exec_frame he).ctx]
  cases o with
  | store f => exact (ho : False).elim
  | locked s =>
    obtain rfl : s = .sweepFile fo := ho
    exact Section.sweepFile_of_not_holds h
  | _ => rfl

/-- Every record and every window belongs to a handle of the device's generation; while a
reset is in flight there are none, no buffer is advertised once ArcLock is free, and the
saved config is valid. A request whose handle is stale acts on no table and no register,
and the cleanup of a stale handle leaves the device context as it is. -/
theorem resources_current {c : DriverConfig} (h : Reach driver anyStep c) :
    (∀ m ∈ c.world.ctx.mappingList,
      c.world.fileGen m.fileObject = c.world.ctx.resetGeneration) ∧
    (∀ i fo, c.world.ctx.tlbOwner i = some fo →
      c.world.fileGen fo = c.world.ctx.resetGeneration) ∧
    (c.world.ctx.needsHwInit = true →
      c.world.ctx.mappingList = [] ∧ (∀ i, c.world.ctx.tlbOwner i = none) ∧
      (∀ i, c.world.ctx.tlbBitmap i = true ↔ i = kernelTlbIndex) ∧
      (c.world.arcLock = none → c.world.ctx.sysmemVerified = false) ∧
      c.world.ctx.savedConfigValid = true) ∧
    ∀ fo, c.world.fileGen fo ≠ c.world.ctx.resetGeneration →
      (∀ o k, c.pool .ioctl = some (.vis o k) → c.world.req.fileObject = some fo → ¬ o.acts) ∧
      ∀ o k, c.pool (.cleanup fo) = some (.vis o k) → o.register = none ∧
        ∀ e x w', c.world.exec (.cleanup fo) o e = some (x, w') → w'.ctx = c.world.ctx := by
  have hinv := reach_currentInv h
  have hplaced := reach_placed h
  refine ⟨fun m hm => hinv.current _ (.inl ⟨m, hm, rfl⟩), fun i fo hi => hinv.current fo (.inr ⟨i, hi⟩),
    fun hn => ?_, fun fo hstale => ⟨fun o k hp hfo hacts => ?_, fun o k hp => ?_⟩⟩
  · have hnone : ∀ i, c.world.ctx.tlbOwner i = none := by
      intro i
      cases hi : c.world.ctx.tlbOwner i with
      | none => rfl
      | some fo => exact absurd (.inr ⟨i, hi⟩) (hinv.vacant hn fo)
    refine ⟨?_, hnone, fun i => ?_, fun hlock => ?_, hinv.saved hn⟩
    · refine List.eq_nil_iff_forall_not_mem.mpr fun m hm => ?_
      exact hinv.vacant hn _ (.inl ⟨m, hm, rfl⟩)
    · rw [(reach_allocatorInv h).bitmap i, hnone i]
      simp
    · cases hv : c.world.ctx.sysmemVerified with
      | false => rfl
      | true =>
        have hheld := hinv.unverified hn hv
        rw [hlock] at hheld
        cases hheld
  · have hpre := current_sound.about hplaced hp ((mmio_sound.about h hp trivial).2)
      fun _ => current_known
    exact hstale (hpre.1 rfl hacts fo hfo)
  · have hpre := current_sound.about hplaced hp ((mmio_sound.about h hp trivial).2)
      fun _ => current_known
    have hfoot : cleanupFoot fo o := hpre.2 fo rfl
    refine ⟨?_, fun e x w' he => ?_⟩
    · cases o <;> first | rfl | exact (hfoot : False).elim
    · exact exec_cleanup_ctx hfoot (fun hholds => hstale (hinv.current fo hholds)) he

/-- Two handles are opened, and the second arms a reset. -/
def overtakingRun : List Move :=
  cardArrives 0x10000000 ++ opens 1 1 ++ opens 2 2 ++ armsReset

theorem resources_current_overtaken :
    ∃ c : DriverConfig, Reach driver anyStep c ∧ c.world.ctx.needsHwInit = true ∧
      c.world.fileGen 1 ≠ c.world.ctx.resetGeneration ∧
      c.world.fileGen 2 = c.world.ctx.resetGeneration ∧ ∀ i, c.world.ctx.tlbOwner i = none := by
  have hplay : (DriverConfig.play (fun _ _ _ => true) overtakingRun idle).any (fun c =>
      c.world.ctx.needsHwInit && c.world.fileGen 1 != c.world.ctx.resetGeneration &&
        c.world.fileGen 2 == c.world.ctx.resetGeneration) = true := by decide +kernel
  obtain ⟨c, hreach, hend⟩ := DriverConfig.exists_reach (fun _ _ _ _ => trivial) hplay
  simp only [Bool.and_eq_true, bne_iff_ne, beq_iff_eq] at hend
  obtain ⟨⟨hneeds, hstale⟩, hfresh⟩ := hend
  exact ⟨c, hreach, hneeds, hstale, hfresh, ((resources_current hreach).2.2.1 hneeds).2.1⟩

end TtWind
