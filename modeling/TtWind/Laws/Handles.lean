import TtWind.Laws.Frame
import TtWind.Laws.Programs
import TtWind.Laws.Schedule
import TtWind.Laws.Sections

/-!
# What a handle leaves behind

A handle *holds* what the tables list under it: mapping records and windows.
Cleanup detaches all of it in one section. A request of the same handle may
still be executing then, and three of the four sections that give a handle
something do not look whether that has happened; only the insertion of a
MAP_TLB record does, through the window's owner.

So nothing survives a handle in the runs in which those three act before the
handle's sweep, and something does in the run of `leakingRun`.
-/

set_option autoImplicit false

namespace TtWind

open TtWind.Effect TtWind.Effect.Prog TtWind.Effect.Protocol

/-- Some record or window is listed under the handle. -/
def DeviceContext.holds (c : DeviceContext) (fo : FileObject) : Prop :=
  (∃ m ∈ c.mappingList, m.fileObject = fo) ∨ ∃ i, c.tlbOwner i = some fo

/-- The handle is open, and its cleanup has not yet swept the tables. -/
def World.unswept (w : World) (fo : FileObject) : Prop :=
  w.files fo = .isOpen ∨ (w.files fo = .closing ∧ w.hist (.cleanup fo) = [])

/-- The section would give the handle something without looking whether it still may. -/
def Section.Gives (c : DeviceContext) (fo : FileObject) : Section → Prop
  | .insertMapping m => m.tlbId < 0 ∧ m.fileObject = fo
  | .appendMapping m => m.fileObject = fo
  | .allocateTlb fo' => fo' = fo ∧ findClearBit c.tlbBitmap ≠ none
  | _ => False

/-- What is given, is given before the sweep. -/
def givesUnswept (_ : Tid) (o : Op) (w : World) : Prop :=
  match o with
  | .locked s => ∀ fo, s.Gives w.ctx fo → w.unswept fo
  | _ => True

/-! ## The sections -/

/-- A handle holds something after a section only if it did before, or was given it. -/
theorem Section.run_holds {c : DeviceContext} {s : Section} {fo : FileObject}
    (h : (s.run c).2.holds fo) : c.holds fo ∨ s.Gives c fo := by
  rcases h with ⟨m, hm, hfo⟩ | ⟨i, hown⟩
  · rcases Section.mem_of_run hm with hm | rfl | ⟨rfl, hwindow⟩
    · exact .inl (.inl ⟨m, hm, hfo⟩)
    · exact .inr hfo
    · by_cases h0 : 0 ≤ m.tlbId
      · exact .inl (.inr ⟨_, hfo ▸ hwindow h0⟩)
      · exact .inr ⟨Int.not_le.mp h0, hfo⟩
  · rcases Section.owner_of_run hown with hown | ⟨rfl, hclear⟩
    · exact .inl (.inr ⟨i, hown⟩)
    · exact .inr ⟨rfl, by simp [hclear]⟩

/-- Only windows that exist have owners. -/
def DeviceContext.OwnersInRange (c : DeviceContext) : Prop :=
  ∀ i fo, c.tlbOwner i = some fo → i < tlb2mCount

theorem Section.run_range {c : DeviceContext} (h : c.OwnersInRange) (s : Section) :
    (s.run c).2.OwnersInRange := by
  intro i fo hown
  rcases Section.owner_of_run hown with hown | ⟨-, hclear⟩
  · exact h i fo hown
  · exact (findClearBit_some hclear).1

/-- The sweep leaves the handle with nothing. -/
theorem Section.sweepFile_holds {c : DeviceContext} (h : c.OwnersInRange) (fo : FileObject) :
    ¬ (run (.sweepFile fo) c).2.holds fo := by
  rintro (⟨m, hm, hfo⟩ | ⟨i, hown⟩)
  · have hne := (List.mem_filter.mp hm).2
    simp [hfo] at hne
  · simp only [run] at hown
    split at hown
    · cases hown
    · rename_i hkept
      exact hkept ⟨h i fo hown, hown⟩

/-! ## The protocol -/

/-- What a handle holds, it holds before its sweep; and a handle's phase fits its calls. -/
structure HandlesInv (L : Tid → Prop) (w : World) : Prop where
  range : w.ctx.OwnersInRange
  unswept : ∀ fo, w.ctx.holds fo → w.unswept fo
  creating : ∀ fo, L (.create fo) → w.files fo = .opening
  closing : ∀ fo, L (.cleanup fo) → w.files fo = .closing

/-- A cleanup has swept once it has done anything. -/
def handles : Protocol DriverSig Tid World where
  allow := givesUnswept
  inv := HandlesInv
  rely t w w' := w'.hist t = w.hist t
  guar t w w' := ∀ u, u ≠ t → w'.hist u = w.hist u
  post t w :=
    match t with
    | .cleanup fo => w.hist (.cleanup fo) ≠ []
    | _ => True

theorem handles_steady : handles.Steady where
  refl _ _ := rfl
  trans _ _ _ _ h₁ h₂ := Eq.trans h₂ h₁

theorem unswept_congr {w w' : World} {fo : FileObject} (hf : w'.files fo = w.files fo)
    (hh : w'.hist (.cleanup fo) = w.hist (.cleanup fo)) : w'.unswept fo ↔ w.unswept fo := by
  simp only [World.unswept, hf, hh]

/-- What an operation that gives only before the sweep does to what handles hold. -/
theorem exec_holds {t : Tid} {o : Op} {e : Choice} {w w' : World} {x : o.Ans} {L : Tid → Prop}
    (ho : o.KeepsTables) (hinv : HandlesInv L w) (ha : givesUnswept t o w)
    (he : w.exec t o e = some (x, w')) :
    w'.ctx.OwnersInRange ∧ ∀ fo, w'.ctx.holds fo → w.unswept fo := by
  have hctx := (World.exec_frame he).ctx
  have hsame : w'.ctx.mappingList = w.ctx.mappingList → w'.ctx.tlbOwner = w.ctx.tlbOwner →
      w'.ctx.OwnersInRange ∧ ∀ fo, w'.ctx.holds fo → w.unswept fo := by
    intro hl hown
    constructor
    · intro i fo hi
      rw [hown] at hi
      exact hinv.range i fo hi
    · intro fo hfo
      apply hinv.unswept fo
      simpa only [DeviceContext.holds, hl, hown] using hfo
  cases o with
  | store f =>
    have hf := ho w.ctx
    exact hsame (by rw [hctx]; exact hf.1) (by rw [hctx]; exact hf.2.1)
  | locked s =>
    rw [hctx]
    refine ⟨Section.run_range hinv.range s, fun fo hfo => ?_⟩
    rcases Section.run_holds hfo with hold | hgives
    · exact hinv.unswept fo hold
    · exact ha fo hgives
  | _ => exact hsame (by rw [hctx]; rfl) (by rw [hctx]; rfl)

/-- An operation of a thread that is not a cleanup. -/
theorem exec_handlesInv {t : Tid} {o : Op} {e : Choice} {w w' : World} {x : o.Ans}
    {L : Tid → Prop} (ht : ∀ fo, t ≠ .cleanup fo) (ho : o.KeepsTables) (hinv : HandlesInv L w)
    (ha : givesUnswept t o w) (he : w.exec t o e = some (x, w')) :
    HandlesInv L w' ∧ ∀ u, u ≠ t → w'.hist u = w.hist u := by
  have hf := World.exec_frame he
  have hhist : ∀ u, u ≠ t → w'.hist u = w.hist u := by
    intro u hu
    rw [hf.hist, Function.update_of_ne hu]
  obtain ⟨hrange, hholds⟩ := exec_holds ho hinv ha he
  refine ⟨⟨hrange, fun fo hfo => ?_, ?_, ?_⟩, hhist⟩
  · apply (unswept_congr (by rw [hf.files]) (hhist _ (Ne.symm (ht fo)))).mpr
    exact hholds fo hfo
  · rw [hf.files]
    exact hinv.creating
  · rw [hf.files]
    exact hinv.closing

theorem handles_keeps {t : Tid} (ht : ∀ fo, t ≠ .cleanup fo) {α : Type} {p : Drv α}
    (hp : p.Only Op.KeepsTables) : handles.Keeps driverMachine t (fun _ => True) p := by
  refine Keeps.of_within (Stable.true t) (fun _ _ _ _ _ => trivial) ?_ hp
  intro o ho w L e x w' _ _ hinv ha he
  obtain ⟨hinv', hguar⟩ := exec_handlesInv ht ho hinv ha he
  exact ⟨hinv', hguar, trivial, trivial⟩

/-! ## The cleanup -/

/-- The cleanup has done its sweep. -/
def Swept (fo : FileObject) (w : World) : Prop := w.hist (.cleanup fo) ≠ []

theorem stable_swept (fo : FileObject) : handles.Stable (.cleanup fo) (Swept fo) := by
  intro w w' hr h
  have hhist : w'.hist (.cleanup fo) = w.hist (.cleanup fo) := hr
  rw [Swept, hhist]
  exact h

/-- An operation of a cleanup after which its handle holds nothing. -/
theorem exec_cleanup {fo : FileObject} {o : Op} {e : Choice} {w w' : World} {x : o.Ans}
    {L : Tid → Prop} (ho : o.KeepsTables) (hinv : HandlesInv L w)
    (ha : givesUnswept (.cleanup fo) o w) (he : w.exec (.cleanup fo) o e = some (x, w'))
    (hnone : ¬ w'.ctx.holds fo) :
    HandlesInv L w' ∧ (∀ u, u ≠ .cleanup fo → w'.hist u = w.hist u) ∧ Swept fo w' := by
  have hf := World.exec_frame he
  have hhist : ∀ u, u ≠ .cleanup fo → w'.hist u = w.hist u := by
    intro u hu
    rw [hf.hist, Function.update_of_ne hu]
  obtain ⟨hrange, hholds⟩ := exec_holds ho hinv ha he
  have hswept : Swept fo w' := by
    rw [Swept, hf.hist, Function.update_self]
    exact List.cons_ne_nil _ _
  refine ⟨⟨hrange, fun fo' hfo' => ?_, ?_, ?_⟩, hhist, hswept⟩
  · have hne : fo' ≠ fo := by
      rintro rfl
      exact hnone hfo'
    have hother : Tid.cleanup fo' ≠ .cleanup fo := by simpa using hne
    apply (unswept_congr (by rw [hf.files]) (hhist _ hother)).mpr
    exact hholds fo' hfo'
  · rw [hf.files]
    exact hinv.creating
  · rw [hf.files]
    exact hinv.closing

/-- After the sweep the handle holds nothing any more. -/
theorem not_holds_of_swept {fo : FileObject} {w : World} {L : Tid → Prop}
    (hinv : HandlesInv L w) (hl : L (.cleanup fo)) (hs : Swept fo w) : ¬ w.ctx.holds fo := by
  intro hfo
  have hphase := hinv.closing fo hl
  rcases hinv.unswept fo hfo with hopen | ⟨-, hnil⟩
  · rw [hphase] at hopen
    cases hopen
  · exact hs hnil

theorem teardown_keeps_swept {fo : FileObject} {α : Type} {p : Drv α}
    (hp : p.Only (cleanupFoot fo)) : handles.Keeps driverMachine (.cleanup fo) (Swept fo) p := by
  refine Keeps.of_within (stable_swept fo) (fun _ _ _ _ _ => trivial) ?_ hp
  intro o ho w L e x w' hs hl hinv ha he
  have hkeeps : o.KeepsTables := by
    cases o with
    | store f => exact (ho : False).elim
    | _ => trivial
  have hnone : ¬ w'.ctx.holds fo := by
    have hbefore := not_holds_of_swept hinv hl hs
    rw [(World.exec_frame he).ctx]
    cases o with
    | locked s =>
      obtain rfl : s = .sweepFile fo := ho
      exact Section.sweepFile_holds hinv.range fo
    | store f => exact (ho : False).elim
    | _ => exact hbefore
  obtain ⟨hinv', hguar, hs'⟩ := exec_cleanup hkeeps hinv ha he hnone
  exact ⟨hinv', hguar, hs', trivial⟩

/-- A cleanup sweeps first, and leaves its handle with nothing. -/
theorem evtFileCleanup_handles (fo : FileObject) :
    handles.Triple driverMachine (.cleanup fo) (fun _ => True) (evtFileCleanup fo)
      fun _ => Swept fo := by
  refine Triple.vis (I := fun _ => Swept fo) (Stable.true _) (fun _ _ _ => trivial) ?_ fun ms => ?_
  · intro w L e x w' _ _ hinv ha he
    have hnone : ¬ w'.ctx.holds fo := by
      rw [(World.exec_frame he).ctx]
      exact Section.sweepFile_holds hinv.range fo
    have hkeeps : (Op.locked (.sweepFile fo)).KeepsTables := trivial
    exact exec_cleanup hkeeps hinv ha he hnone
  · apply teardown_keeps_swept
    exact destroyAll_only ⟨trivial, fun _ => trivial, fun _ => trivial, fun _ => trivial,
      fun _ => trivial, fun _ _ => trivial, fun _ => trivial, fun _ => trivial,
      fun _ => trivial⟩ ms

/-! ## The whole system -/

theorem begins_safe_handles {L : Tid → Prop} {t : Tid} {p : Drv Unit} {w w' : World}
    (h : Begins L t p w w') : handles.Safe driverMachine t p (fun _ => handles.post t) w' := by
  have hkeeps := begins_keepsTables h
  cases h with
  | cleanup fo => exact evtFileCleanup_handles fo _ trivial
  | _ => exact handles_keeps (by simp) hkeeps _ trivial

/-- A begin keeps the invariant. -/
theorem begins_handlesInv {L : Tid → Prop} {t : Tid} {p : Drv Unit} {w w' : World}
    (h : Begins L t p w w') (hnl : ¬ L t) (hinv : HandlesInv L w) :
    HandlesInv (fun u => u = t ∨ L u) w' := by
  have hctx := begins_ctx h
  -- a call that changes no handle's phase and resets no cleanup's history
  have hplain : (∀ fo, t ≠ .cleanup fo) → (∀ fo, t ≠ .create fo) → w'.files = w.files →
      (∀ u, u ≠ t → w'.hist u = w.hist u) → HandlesInv (fun u => u = t ∨ L u) w' := by
    intro hcl hcr hf hh
    refine ⟨hctx ▸ hinv.range, fun fo hfo => ?_, fun fo hfo => ?_, fun fo hfo => ?_⟩
    · apply (unswept_congr (by rw [hf]) (hh _ (Ne.symm (hcl fo)))).mpr
      exact hinv.unswept fo (hctx ▸ hfo)
    · rw [hf]
      exact hinv.creating fo (hfo.resolve_left (Ne.symm (hcr fo)))
    · rw [hf]
      exact hinv.closing fo (hfo.resolve_left (Ne.symm (hcl fo)))
  have hother : ∀ u, u ≠ t → w'.hist u = w.hist u := by
    intro u hu
    cases h <;> exact Function.update_of_ne hu _ _
  cases h with
  | ioctl r code p => exact hplain (by simp) (by simp) rfl hother
  | power cb p => exact hplain (by simp) (by simp) rfl hother
  | prepare resources p => exact hplain (by simp) (by simp) rfl hother
  | release p => exact hplain (by simp) (by simp) rfl hother
  | create fo p hclosed =>
    have hfile : ∀ fo', fo' ≠ fo → ((w.enter (.create fo) p).setFile fo .opening).files fo' =
        w.files fo' := fun fo' hne => Function.update_of_ne hne _ _
    refine ⟨hinv.range, fun fo' hfo' => ?_, fun fo' hfo' => ?_, fun fo' hfo' => ?_⟩
    · have hold := hinv.unswept fo' hfo'
      have hne : fo' ≠ fo := by
        rintro rfl
        simp [World.unswept, hclosed] at hold
      apply (unswept_congr (hfile fo' hne) (hother _ (by simp))).mpr
      exact hold
    · by_cases hne : fo' = fo
      · subst hne
        exact Function.update_self _ _ _
      · rw [hfile fo' hne]
        exact hinv.creating fo' (hfo'.resolve_left (by simpa using hne))
    · have hold := hinv.closing fo' (hfo'.resolve_left (by simp))
      have hne : fo' ≠ fo := by
        rintro rfl
        rw [hclosed] at hold
        cases hold
      rw [hfile fo' hne]
      exact hold
  | cleanup fo p hopen =>
    have hfile : ∀ fo', fo' ≠ fo → ((w.enter (.cleanup fo) p).setFile fo .closing).files fo' =
        w.files fo' := fun fo' hne => Function.update_of_ne hne _ _
    have hself : ((w.enter (.cleanup fo) p).setFile fo .closing).files fo = .closing :=
      Function.update_self _ _ _
    refine ⟨hinv.range, fun fo' hfo' => ?_, fun fo' hfo' => ?_, fun fo' hfo' => ?_⟩
    · by_cases hne : fo' = fo
      · subst hne
        exact .inr ⟨hself, Function.update_self _ _ _⟩
      · apply (unswept_congr (hfile fo' hne) (hother _ (by simpa using hne))).mpr
        exact hinv.unswept fo' hfo'
    · have hold := hinv.creating fo' (hfo'.resolve_left (by simp))
      have hne : fo' ≠ fo := by
        rintro rfl
        rw [hopen] at hold
        cases hold
      rw [hfile fo' hne]
      exact hold
    · by_cases hne : fo' = fo
      · rw [hne]
        exact hself
      · rw [hfile fo' hne]
        exact hinv.closing fo' (hfo'.resolve_left (by simpa using hne))

/-- An end keeps the invariant: a cleanup ends with nothing held. -/
theorem ends_handlesInv {L : Tid → Prop} {t : Tid} {w : World} (hl : L t)
    (hinv : HandlesInv L w) (hpost : handles.post t w) :
    HandlesInv (fun u => u ≠ t ∧ L u) (w.leave t) := by
  have hsame : w.leave t = w → HandlesInv (fun u => u ≠ t ∧ L u) (w.leave t) := by
    intro hw
    rw [hw]
    exact ⟨hinv.range, hinv.unswept, fun fo h => hinv.creating fo h.2, fun fo h => hinv.closing fo h.2⟩
  cases t with
  | ioctl => exact hsame rfl
  | power => exact hsame rfl
  | hardware => exact hsame rfl
  | create fo =>
    have hphase := hinv.creating fo hl
    have hfile : ∀ fo', fo' ≠ fo → (w.leave (.create fo)).files fo' = w.files fo' :=
      fun fo' hne => Function.update_of_ne hne _ _
    refine ⟨hinv.range, fun fo' hfo' => ?_, fun fo' hfo' => ?_, fun fo' hfo' => ?_⟩
    · by_cases hne : fo' = fo
      · subst hne
        exact .inl (Function.update_self _ _ _)
      · exact (unswept_congr (hfile fo' hne) rfl).mpr (hinv.unswept fo' hfo')
    · rw [hfile fo' (by simpa using hfo'.1)]
      exact hinv.creating fo' hfo'.2
    · have hold := hinv.closing fo' hfo'.2
      have hne : fo' ≠ fo := by
        rintro rfl
        rw [hphase] at hold
        cases hold
      rw [hfile fo' hne]
      exact hold
  | cleanup fo =>
    have hphase := hinv.closing fo hl
    have hnone := not_holds_of_swept hinv hl hpost
    have hfile : ∀ fo', fo' ≠ fo → (w.leave (.cleanup fo)).files fo' = w.files fo' :=
      fun fo' hne => Function.update_of_ne hne _ _
    refine ⟨hinv.range, fun fo' hfo' => ?_, fun fo' hfo' => ?_, fun fo' hfo' => ?_⟩
    · have hne : fo' ≠ fo := by
        rintro rfl
        exact hnone hfo'
      exact (unswept_congr (hfile fo' hne) rfl).mpr (hinv.unswept fo' hfo')
    · have hold := hinv.creating fo' hfo'.2
      have hne : fo' ≠ fo := by
        rintro rfl
        rw [hphase] at hold
        cases hold
      rw [hfile fo' hne]
      exact hold
    · rw [hfile fo' (by simpa using hfo'.1)]
      exact hinv.closing fo' hfo'.2

theorem handles_sound : handles.Sound driver where
  toSteady := handles_steady
  initial w hw := by
    obtain ⟨buffer, rfl⟩ := hw
    refine ⟨fun i fo hi => (nomatch hi), fun fo hfo => ?_, fun _ h => h.elim, fun _ h => h.elim⟩
    rcases hfo with ⟨m, hm, -⟩ | ⟨i, hi⟩
    · cases hm
    · cases hi
  compat L t t' w w' _ _ hne _ _ hg := hg t' (Ne.symm hne)
  begins L t p w w' hb hnl hinv _ := by
    refine ⟨begins_handlesInv hb hnl hinv, fun t' ht' => ?_, begins_safe_handles hb⟩
    have hne : t' ≠ t := by
      rintro rfl
      exact hnl ht'
    show w'.hist t' = w.hist t'
    cases hb <;> exact Function.update_of_ne hne _ _
  ends L t w w' he hl hinv _ hpost := by
    obtain rfl : w' = w.leave t := he
    refine ⟨ends_handlesInv hl hinv hpost, fun t' _ => ?_⟩
    cases t <;> rfl
  env L w w' he hinv _ := by
    have hsame : w'.ctx = w.ctx ∧ w'.files = w.files ∧ w'.hist = w.hist := by
      cases he <;> exact ⟨rfl, rfl, rfl⟩
    obtain ⟨hctx, hf, hh⟩ := hsame
    refine ⟨⟨hctx ▸ hinv.range, fun fo hfo => ?_, hf ▸ hinv.creating, hf ▸ hinv.closing⟩,
      fun t' _ => congrFun hh t'⟩
    exact (unswept_congr (by rw [hf]) (by rw [hh])).mpr (hinv.unswept fo (hctx ▸ hfo))

/-! ## What survives a handle -/

/-- Nothing survives a handle, if whatever a request gives to a handle without looking is
given before the handle's cleanup has swept. -/
theorem nothing_survives_handle {c : DriverConfig} (h : Reach driver givesUnswept c)
    {fo : FileObject} (hclosed : c.world.files fo = .closed) :
    (∀ m ∈ c.world.ctx.mappingList, m.fileObject ≠ fo) ∧
      ∀ i, c.world.ctx.tlbOwner i ≠ some fo := by
  have hnone : ¬ c.world.ctx.holds fo := by
    intro hfo
    have hunswept := (handles_sound.good h).inv.unswept fo hfo
    simp [World.unswept, hclosed] at hunswept
  constructor
  · intro m hm hfo
    exact hnone (.inl ⟨m, hm, hfo⟩)
  · intro i hi
    exact hnone (.inr ⟨i, hi⟩)

/-- A handle allocates a window and is closed. -/
def tidyRun : List Move :=
  cardArrives 0x10000000 ++ opens 1 0 ++
    [.ioctl allocateRequest .allocateTlb 0, .ops .ioctl (plainOps 10), .ends .ioctl,
      .cleanup 1 0, .ops (.cleanup 1) (plainOps 1), .ends (.cleanup 1)]

/-- The sections that give something do so before the sweep, as a test. -/
def givesUnsweptTest (_ : Tid) (o : Op) (w : World) : Bool :=
  match o with
  | .locked (.allocateTlb fo) => w.files fo == .isOpen
  | .locked (.insertMapping m) => w.files m.fileObject == .isOpen
  | .locked (.appendMapping m) => w.files m.fileObject == .isOpen
  | _ => true

theorem givesUnsweptTest_implies : DriverConfig.Implies givesUnsweptTest givesUnswept := by
  intro t o w hok
  cases o with
  | locked s =>
    intro fo hgives
    left
    cases s with
    | allocateTlb fo' =>
      obtain ⟨rfl, -⟩ := hgives
      exact beq_iff_eq.mp hok
    | insertMapping m =>
      obtain ⟨-, rfl⟩ := hgives
      exact beq_iff_eq.mp hok
    | appendMapping m =>
      obtain rfl : m.fileObject = fo := hgives
      exact beq_iff_eq.mp hok
    | _ => exact hgives.elim
  | _ => trivial

theorem nothing_survives_handle_tidy :
    ∃ c : DriverConfig, Reach driver givesUnswept c ∧ c.world.files 1 = .closed ∧
      c.world.hist (.cleanup 1) ≠ [] ∧ ∀ i, c.world.ctx.tlbOwner i ≠ some 1 := by
  have hplay : (DriverConfig.play givesUnsweptTest tidyRun idle).any
      (fun c => c.world.files 1 == .closed && !(c.world.hist (.cleanup 1)).isEmpty) = true := by
    decide
  obtain ⟨c, hreach, hend⟩ := DriverConfig.exists_reach givesUnsweptTest_implies hplay
  simp only [Bool.and_eq_true, beq_iff_eq, Bool.not_eq_true', List.isEmpty_eq_false_iff] at hend
  exact ⟨c, hreach, hend.1, hend.2, (nothing_survives_handle hreach hend.1).2⟩

/-- The handle is closed while its ALLOCATE_TLB is about to enter its section. -/
def leakingRun : List Move :=
  cardArrives 0x10000000 ++ opens 1 0 ++
    [.ioctl allocateRequest .allocateTlb 0, .ops .ioctl (plainOps 6),
      .cleanup 1 0, .ops (.cleanup 1) (plainOps 1), .ends (.cleanup 1),
      .ops .ioctl (plainOps 4), .ends .ioctl]

/-- The cleanup and the request are both done, and the closed handle owns window 0. -/
theorem window_survives_handle :
    ¬ ∀ c : DriverConfig, Reach driver anyStep c → ∀ fo, c.world.files fo = .closed →
      ¬ c.live .ioctl → (∀ m ∈ c.world.ctx.mappingList, m.fileObject ≠ fo) ∧
        ∀ i, c.world.ctx.tlbOwner i ≠ some fo := by
  intro hclaim
  have hplay : (DriverConfig.play (fun _ _ _ => true) leakingRun idle).any
      (fun c => c.world.files 1 == .closed && (c.pool .ioctl).isNone &&
        c.world.ctx.tlbOwner 0 == some 1) = true := by decide
  obtain ⟨c, hreach, hend⟩ := DriverConfig.exists_reach (fun _ _ _ _ => trivial) hplay
  simp only [Bool.and_eq_true, beq_iff_eq] at hend
  obtain ⟨⟨hclosed, hdone⟩, howner⟩ := hend
  exact (hclaim c hreach 1 hclosed (DriverConfig.not_live_of_isNone hdone)).2 0 howner

end TtWind
