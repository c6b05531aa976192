import TtWind.Laws.Views

/-!
# Making and destroying mapping records

What each program does to the records its thread has. Destroying a record
unmaps what it shows before the record is freed, or finds that its process is
terminating; making one ends with the record listed or destroyed again. A third
property is carried along: `Having t cs I` adds to `Owns t cs` a property `I` of
the device context that the program keeps.
-/

set_option autoImplicit false

namespace TtWind

open TtWind.Effect TtWind.Effect.Prog TtWind.Effect.Protocol

/-- The thread has these records, and `I` holds. -/
def Having (t : Tid) (cs : List Charge) (I : World → Prop) (w : World) : Prop := Owns t cs w ∧ I w

/-- A property of the context that the other threads keep. -/
structure Fixed (t : Tid) (I : World → Prop) : Prop where
  stable : views.Stable t I
  ofContext : ∀ w w' : World, w'.ctx = w.ctx → w'.started = w.started → I w → I w'

/-- No reset is in flight. -/
def Clear (w : World) : Prop := w.ctx.needsHwInit = false

/-- No record is listed. -/
def Unlisted (w : World) : Prop := w.ctx.mappingList = []

theorem fixed_true (t : Tid) : Fixed t fun _ => True := ⟨Stable.true t, fun _ _ _ _ h => h⟩

theorem fixed_clear : Fixed .ioctl Clear := by
  refine ⟨fun w w' hr h => ?_, fun w w' hctx _ h => ?_⟩
  · have hr : Untouched .ioctl w w' := hr
    exact (hr.needs rfl).trans h
  · rw [Clear, hctx]
    exact h

theorem fixed_unlisted {t : Tid} (ht : t = .ioctl ∨ t = .hardware) : Fixed t Unlisted := by
  refine ⟨fun w w' hr h => ?_, fun w w' hctx _ h => ?_⟩
  · have hr : Untouched t w w' := hr
    have hsub := hr.list ht
    rw [show w.ctx.mappingList = [] from h] at hsub
    exact List.subset_nil.mp hsub
  · rw [Unlisted, hctx]
    exact h

theorem fixed_started : Fixed .hardware fun w => w.started = true := by
  refine ⟨fun w w' hr h => ?_, fun w w' _ hst h => hst.trans h⟩
  have hr : Untouched .hardware w w' := hr
  exact (hr.started rfl).trans h

section Rules

variable {t : Tid} {cs : List Charge} {I : World → Prop} {α : Type} {o : Op} {e : Choice}
  {w w' : World} {x : o.Ans} {L : Tid → Prop}

theorem Fixed.having (hI : Fixed t I) (cs : List Charge) : views.Stable t (Having t cs I) :=
  Stable.and (stable_owns t cs) hI.stable

/-- What an operation needs beyond leaving views alone: ReleaseHardware has either not
come past its revocation, or finds nothing listed. -/
theorem mayDo_of_leaves (ho : o.LeavesViews)
    (h : t = .hardware → w.started = false → ¬ o.ofRevocation → w.Emptied .hardware) :
    MayDo t o w := by
  refine ⟨fun m wc a ho' => ?_, fun data ho' => ?_, h⟩
  · subst ho'
    exact ho.elim
  · subst ho'
    exact absurd rfl ho

/-- The revocation's own operations are always in place. -/
theorem mayDo_of_revocation (ho : o.ofRevocation) : MayDo t o w := by
  refine ⟨fun m wc a ho' => ?_, fun data ho' => ?_, fun _ _ hn => absurd ho hn⟩
  · subst ho'
    exact ho.elim
  · subst ho'
    exact ho.elim

/-- A step that leaves views, records and the context alone. -/
theorem Having.leaves (hI : Fixed t I) (ho : o.LeavesViews) (hc : ∀ c, o.effect c = c)
    (he : w.exec t o e = some (x, w')) (hinv : ViewsInv L w) (h : Having t cs I w) :
    ViewsInv L w' ∧ views.guar t w w' ∧ Having t cs I w' := by
  have hf := World.exec_frame he
  have hn : o.NeedsOf t := .inr (.inr fun c => by rw [hc c])
  obtain ⟨hinv', hguar, howns⟩ := exec_leavesViews ho hn he hinv
  have hctx : w'.ctx = w.ctx := hf.ctx.trans (hc w.ctx)
  exact ⟨hinv', hguar, howns cs h.1, hI.ofContext w w' hctx hf.started h.2⟩

/-- A program of operations that leave views alone, each in place and keeping `I`. -/
theorem leaves_keeps {K : Op → Prop} (hI : views.Stable t I)
    (hK : ∀ o, K o → o.LeavesViews ∧ o.NeedsOf t)
    (hdo : ∀ o, K o → ∀ w, Having t cs I w → MayDo t o w)
    (hstep : ∀ o, K o → ∀ {e w x w'}, World.exec t o e w = some (x, w') → I w → I w')
    {p : Drv α} (hp : p.Only K) : views.Keeps driverMachine t (Having t cs I) p := by
  refine Keeps.of_within (Stable.and (stable_owns t cs) hI) (fun o ho w hw _ => hdo o ho w hw) ?_ hp
  intro o ho w L e x w' hw _ hinv _ he
  obtain ⟨hinv', hguar, howns⟩ := exec_leavesViews (hK o ho).1 (hK o ho).2 he hinv
  exact ⟨hinv', hguar, ⟨howns cs hw.1, hstep o ho he hw.2⟩, trivial⟩

/-- Operations of a teardown that change no record and no view. -/
def Op.restsInTeardown : Op → Prop
  | .currentProcess | .exitPending _ | .attach _ | .detach _ | .freeMdl _
  | .dereferenceProcess _ => True
  | _ => False

theorem restsInTeardown_leaves (ho : o.restsInTeardown) :
    o.LeavesViews ∧ o.ofRevocation ∧ ∀ c, o.effect c = c := by
  cases o <;> first | exact ⟨trivial, trivial, fun _ => rfl⟩ | exact (ho : False).elim

theorem rests_keeps (hI : Fixed t I) {p : Drv α} (hp : p.Only Op.restsInTeardown) :
    views.Keeps driverMachine t (Having t cs I) p := by
  refine Keeps.of_within (hI.having cs)
    (fun o ho w _ _ => mayDo_of_revocation (restsInTeardown_leaves ho).2.1) ?_ hp
  intro o ho w L e x w' hw _ hinv _ he
  obtain ⟨hl, -, hc⟩ := restsInTeardown_leaves ho
  obtain ⟨hinv', hguar, hw'⟩ := Having.leaves hI hl hc he hinv hw
  exact ⟨hinv', hguar, hw', trivial⟩

/-! ## Destroying a record -/

/-- An unmap in the record's process leaves nothing shown for it. -/
theorem Having.unmap {m : UserMapping} (hI : Fixed t I) (hc : ∀ c, o.effect c = c)
    (hpool : w'.pool = w.pool) (he : w.exec t o e = some (x, w'))
    (hgone : ∀ v ∈ w'.views, v ∈ w.views ∧
      ¬ (v.process = w.curProc t ∧ v.va = m.viewVa ∧ v.isDevice = m.isDevice))
    (hcur : w.curProc t = m.process) (hinv : ViewsInv L w) (h : Having t (m.charge :: cs) I w) :
    ViewsInv L w' ∧ views.guar t w w' ∧ Having t (bare m.addr :: cs) I w' := by
  have hf := World.exec_frame he
  have hn : o.NeedsOf t := .inr (.inr fun c => by rw [hc c])
  have hctx : w'.ctx = w.ctx := hf.ctx.trans (hc w.ctx)
  obtain ⟨hinv', hguar, howns⟩ := exec_unmoved he hn hinv hpool (by rw [hctx])
    (shown_of_views he fun v hv => (hgone v hv).1)
  refine ⟨hinv', hguar, ?_, hI.ofContext w w' hctx hf.started h.2⟩
  refine (howns _ h.1).replace fun v hv ha hs => ?_
  obtain ⟨hp, hva, hd⟩ := hs
  exact (hgone v hv.1).2 ⟨hp.trans hcur.symm, hva, hd⟩

/-- The thread is in this process. -/
def InProcess (t : Tid) (p : Process) (w : World) : Prop := w.curProc t = p

theorem exec_attach {p : Process} {x : Process} (he : w.exec t (.attach p) e = some (x, w')) :
    InProcess t p w' := by
  obtain ⟨w₁, hs, rfl⟩ := World.exec_step he
  obtain ⟨-, rfl⟩ := Prod.mk.inj (Option.some.inj hs)
  exact Function.update_self t p w.curProc

theorem exec_currentProcess {x : Process} (he : w.exec t .currentProcess e = some (x, w')) :
    InProcess t x w' := by
  obtain ⟨w₁, hs, rfl⟩ := World.exec_step he
  obtain ⟨rfl, rfl⟩ := Prod.mk.inj (Option.some.inj hs)
  rfl

theorem stable_inProcess (t : Tid) (p : Process) : views.Stable t (InProcess t p) := by
  intro w w' hr h
  have hr : Untouched t w w' := hr
  exact hr.curProc.trans h

theorem unmapUserView_views (hI : Fixed t I) (m : UserMapping) :
    views.Triple driverMachine t (fun w => Having t (m.charge :: cs) I w ∧ InProcess t m.process w)
      (unmapUserView m) fun _ => Having t (bare m.addr :: cs) I := by
  have hstable := Stable.and (hI.having (m.charge :: cs)) (stable_inProcess t m.process)
  have hdone : ∀ {β : Type} (b : β), views.Triple driverMachine t (Having t (bare m.addr :: cs) I)
      (Prog.pure b) fun _ => Having t (bare m.addr :: cs) I :=
    fun _ => Triple.pure (hI.having _) fun _ h => h
  unfold unmapUserView
  cases hk : m.kind with
  | sectionView =>
    refine Triple.vis (I := fun _ => Having t (bare m.addr :: cs) I) hstable
      (fun w _ _ => mayDo_of_revocation trivial) ?_ fun _ => hdone _
    intro w L e x w' hw _ hinv _ he
    have he : World.exec t (.unmapView m.sectionBase) e w = some (x, w') := he
    have hva : m.viewVa = m.sectionBase := by rw [UserMapping.viewVa, hk]
    have hd : m.isDevice = false := by rw [UserMapping.isDevice, hk]
    refine Having.unmap hI (fun _ => rfl) ((World.exec_frame he).pool id) he ?_ hw.2 hinv hw.1
    rw [hva, hd]
    exact exec_unmapView he
  | mdl =>
    refine Triple.vis (I := fun _ => Having t (bare m.addr :: cs) I) hstable
      (fun w _ _ => mayDo_of_revocation trivial) ?_ fun _ => hdone _
    intro w L e x w' hw _ hinv _ he
    have he : World.exec t (.unmapLockedPages m.userVa m.mdl) e w = some (x, w') := he
    have hva : m.viewVa = m.userVa := by rw [UserMapping.viewVa, hk]
    have hd : m.isDevice = true := by rw [UserMapping.isDevice, hk]
    refine Having.unmap hI (fun _ => rfl) ((World.exec_frame he).pool id) he ?_ hw.2 hinv hw.1
    rw [hva, hd]
    exact exec_unmapLockedPages he

theorem teardownView_views (hI : Fixed t I) (m : UserMapping) :
    views.Triple driverMachine t (Having t (m.charge :: cs) I) (teardownView m)
      fun _ => Having t (bare m.addr :: cs) I := by
  refine Triple.vis (I := fun p w => Having t (m.charge :: cs) I w ∧ InProcess t p w)
    (hI.having _) (fun w _ _ => mayDo_of_revocation trivial) ?_ fun current => ?_
  · intro w L e x w' hw _ hinv _ he
    have he : World.exec t .currentProcess e w = some (x, w') := he
    obtain ⟨hinv', hguar, hw'⟩ := Having.leaves (o := .currentProcess) hI trivial (fun _ => rfl) he hinv hw
    exact ⟨hinv', hguar, hw', exec_currentProcess he⟩
  refine Triple.ite (fun hcur => ?_) fun _ => ?_
  · rw [← hcur]
    exact unmapUserView_views hI m
  -- another process: look whether it still runs
  refine Triple.vis (I := fun pending w => Having t (m.charge :: cs) I w ∧
      (pending = false → w.procs m.process ≠ .running)) (Stable.and (hI.having _) (stable_inProcess t current))
    (fun w _ _ => mayDo_of_revocation trivial) ?_ fun pending => ?_
  · intro w L e x w' hw _ hinv _ he
    have he : World.exec t (.exitPending m.process) e w = some (x, w') := he
    obtain ⟨hinv', hguar, hw'⟩ :=
      Having.leaves (o := .exitPending m.process) hI trivial (fun _ => rfl) he hinv hw.1
    obtain ⟨w₁, hs, -⟩ := World.exec_step he
    obtain ⟨hx, -⟩ := Prod.mk.inj (Option.some.inj hs)
    refine ⟨hinv', hguar, hw', fun hfalse => ?_⟩
    rw [(World.exec_frame he).procs]
    rw [← hx] at hfalse
    simpa using hfalse
  have hexited : views.Stable t fun w => Having t (m.charge :: cs) I w ∧
      (pending = false → w.procs m.process ≠ .running) := by
    refine Stable.and (hI.having _) fun w w' hr h hfalse hrun => ?_
    have hr : Untouched t w w' := hr
    exact h hfalse (hr.procs _ hrun)
  refine Triple.ite (fun _ => ?_) fun hnot => ?_
  · refine Triple.vis (I := fun _ w => Having t (m.charge :: cs) I w ∧ InProcess t m.process w)
      hexited (fun w _ _ => mayDo_of_revocation trivial) ?_ fun saved => ?_
    · intro w L e x w' hw _ hinv _ he
      have he : World.exec t (.attach m.process) e w = some (x, w') := he
      obtain ⟨hinv', hguar, hw'⟩ :=
        Having.leaves (o := .attach m.process) hI trivial (fun _ => rfl) he hinv hw.1
      exact ⟨hinv', hguar, hw', exec_attach he⟩
    · refine Triple.bind (p := unmapUserView m) views_steady (unmapUserView_views hI m) fun _ => ?_
      exact rests_keeps hI ⟨trivial, fun _ _ => trivial⟩
  · -- nothing is shown in a process that has begun to terminate
    refine Triple.pure hexited fun w hw => ⟨hw.1.1.replace fun v hv ha hs => ?_, hw.1.2⟩
    exact hw.2 (by simpa using hnot) (hs.1 ▸ hv.2)

theorem destroyMapping_views (hI : Fixed t I) (m : UserMapping) :
    views.Triple driverMachine t (Having t (m.charge :: cs) I) (destroyMapping m)
      fun _ => Having t cs I := by
  refine Triple.bind views_steady (teardownView_views hI m) fun _ => ?_
  have hfree : (freeMdlOf m.mdl).Only Op.restsInTeardown := by
    cases m.mdl with
    | none => trivial
    | some mdl => exact (within_perform _).mpr trivial
  refine Triple.bind views_steady (rests_keeps hI hfree) fun _ => ?_
  refine Triple.bind (p := op (.dereferenceProcess m.process)) views_steady
    (rests_keeps hI ((within_perform _).mpr trivial)) fun _ => ?_
  refine Triple.vis (I := fun _ => Having t cs I) (hI.having _)
    (fun w _ _ => mayDo_of_revocation trivial) ?_ fun _ => Triple.pure (hI.having _) fun _ h => h
  intro w L e x w' hw _ hinv _ he
  have he : World.exec t (.freePool m.addr) e w = some (x, w') := he
  have hf := World.exec_frame he
  obtain ⟨hinv', hguar, howns⟩ := exec_freePool he hinv hw.1
  exact ⟨hinv', hguar, howns, hI.ofContext w w' hf.ctx hf.started hw.2⟩

/-- A private list of records is destroyed from the first to the last. -/
theorem destroyAll_views (hI : Fixed t I) (ms : List UserMapping) :
    views.Triple driverMachine t (Having t (ms.map UserMapping.charge ++ cs) I) (destroyAll ms)
      fun _ => Having t cs I := by
  induction ms with
  | nil => exact Triple.pure (hI.having _) fun _ h => h
  | cons m ms ih => exact Triple.bind views_steady (destroyMapping_views hI m) fun _ => ih

end Rules

/-! ## Making a record -/

section Requests

variable {cs : List Charge} {I : World → Prop} {α β : Type}

/-- A part of a request that leaves the thread's records as they are. -/
abbrev KeepsRecords (cs : List Charge) (I : World → Prop) (p : Drv α) : Prop :=
  views.Keeps driverMachine .ioctl (Having .ioctl cs I) p

theorem keepsRecords_pure (hI : Fixed .ioctl I) (a : α) :
    KeepsRecords cs I (Prog.pure a : Drv α) := Triple.pure (hI.having cs) fun _ h => h

/-- Operations that leave views and the context alone. -/
def Op.Calm (o : Op) : Prop := o.LeavesViews ∧ ∀ c, o.effect c = c

theorem keepsRecords_calm (hI : Fixed .ioctl I) {p : Drv α} (hp : p.Only Op.Calm) :
    KeepsRecords cs I p := by
  refine leaves_keeps hI.stable (fun o ho => ⟨ho.1, .inl rfl⟩)
    (fun o ho w _ => mayDo_of_leaves ho.1 fun h => by cases h) ?_ hp
  intro o ho e w x w' he h
  have hf := World.exec_frame he
  exact hI.ofContext w w' (hf.ctx.trans (ho.2 w.ctx)) hf.started h

/-- One calm operation, then the rest. -/
theorem KeepsRecords.vis (hI : Fixed .ioctl I) {o : Op} {k : o.Ans → Drv α} {Q : α → World → Prop}
    (ho : o.LeavesViews) (hc : ∀ c, o.effect c = c)
    (hk : ∀ x, views.Triple driverMachine .ioctl (Having .ioctl cs I) (k x) Q) :
    views.Triple driverMachine .ioctl (Having .ioctl cs I) (.vis o k) Q :=
  Triple.bind (p := op o) views_steady
    (keepsRecords_calm hI ((within_perform _).mpr ⟨ho, hc⟩)) hk

theorem attachTo_views (hI : Fixed .ioctl I) (p : Process) :
    views.Triple driverMachine .ioctl (Having .ioctl cs I) (attachTo p)
      fun _ w => Having .ioctl cs I w ∧ InProcess .ioctl p w := by
  have hboth : ∀ q, views.Stable .ioctl fun w => Having .ioctl cs I w ∧ InProcess .ioctl q w :=
    fun q => Stable.and (hI.having cs) (stable_inProcess .ioctl q)
  refine Triple.vis (I := fun q w => Having .ioctl cs I w ∧ InProcess .ioctl q w) (hI.having cs)
    (fun w _ _ => mayDo_of_revocation trivial) ?_ fun current => Triple.ite (fun _ => ?_) fun hcur => ?_
  · intro w L e x w' hw _ hinv _ he
    have he : World.exec .ioctl .currentProcess e w = some (x, w') := he
    obtain ⟨hinv', hguar, hw'⟩ :=
      Having.leaves (o := .currentProcess) hI trivial (fun _ => rfl) he hinv hw
    exact ⟨hinv', hguar, hw', exec_currentProcess he⟩
  · refine Triple.vis (I := fun _ w => Having .ioctl cs I w ∧ InProcess .ioctl p w) (hboth current)
      (fun w _ _ => mayDo_of_revocation trivial) ?_ fun saved => Triple.pure (hboth p) fun _ h => h
    intro w L e x w' hw _ hinv _ he
    have he : World.exec .ioctl (.attach p) e w = some (x, w') := he
    obtain ⟨hinv', hguar, hw'⟩ :=
      Having.leaves (o := .attach p) hI trivial (fun _ => rfl) he hinv hw.1
    exact ⟨hinv', hguar, hw', exec_attach he⟩
  · obtain rfl : p = current := not_not.mp hcur
    exact Triple.pure (hboth _) fun _ h => h

theorem detachFrom_views (hI : Fixed .ioctl I) (saved : Option Process) :
    KeepsRecords cs I (detachFrom saved) := by
  cases saved with
  | none => exact keepsRecords_pure hI _
  | some p => exact keepsRecords_calm hI ((within_perform _).mpr ⟨trivial, fun _ => rfl⟩)

/-- The charge after the attempt to map device memory. -/
def mappedIo (addr : Nat) (p : Process) : Except NtStatus (Mdl × UInt64) → Charge
  | .error _ => bare addr
  | .ok (mdl, va) => (addr, fun v => v = ⟨addr, p, va, .pages mdl.pfns⟩)

theorem mapIoToUser_views (phys length : UInt64) (wc : Bool) (p : Process) (addr : Nat) :
    views.Triple driverMachine .ioctl (Having .ioctl (bare addr :: cs) Clear)
      (mapIoToUser phys length wc p addr)
      fun r => Having .ioctl (mappedIo addr p r :: cs) Clear := by
  have hI := fixed_clear
  let mdl : Mdl := ⟨phys, length.toUInt32,
    pfnArray (phys.toInt64 >>> 12).toUInt64 (length >>> 12).toUInt32.toNat⟩
  have hdone : ∀ r, views.Triple driverMachine .ioctl (Having .ioctl (mappedIo addr p r :: cs) Clear)
      (Prog.pure r) fun r => Having .ioctl (mappedIo addr p r :: cs) Clear :=
    fun _ => Triple.pure (hI.having _) fun _ h => h
  refine KeepsRecords.vis hI trivial (fun _ => rfl) fun allocated => ?_
  refine Triple.ite (fun _ => hdone (.error _)) fun _ => ?_
  refine Triple.bind (p := attachTo p) views_steady (attachTo_views hI p) fun saved => ?_
  refine Triple.vis (I := fun r => Having .ioctl (mapped addr p (.pages mdl.pfns) r :: cs) Clear)
    (Stable.and (hI.having _) (stable_inProcess .ioctl p)) (fun w hw _ => ?_) ?_ fun r => ?_
  · refine ⟨fun _ _ _ _ => hw.1.2, fun data h => ?_, fun h => ?_⟩
    · cases h
    · cases h
  · intro w L e x w' hw _ hinv _ he
    have hf := World.exec_frame he
    obtain ⟨w₁, hs, hw'⟩ := World.exec_step he
    obtain ⟨hinv', hguar, howns⟩ := exec_addView he (.inl rfl) hs hw' hinv hw.1.1
    rw [show w.curProc .ioctl = p from hw.2] at howns
    exact ⟨hinv', hguar, howns, hI.ofContext w w' hf.ctx hf.started hw.1.2⟩
  · refine Triple.bind (p := detachFrom saved) views_steady (detachFrom_views hI saved) fun _ => ?_
    cases r with
    | error s => exact KeepsRecords.vis hI trivial (fun _ => rfl) fun _ => hdone (.error _)
    | ok va => exact hdone (.ok (mdl, va))

/-- A request frees a record that never got a view. -/
theorem abandon_views (hI : Fixed .ioctl I) (p : Process) (addr : Nat) (a : α) :
    views.Triple driverMachine .ioctl (Having .ioctl (bare addr :: cs) I)
      (do
        op (.dereferenceProcess p)
        op (.freePool addr)
        return a)
      fun _ => Having .ioctl cs I := by
  refine KeepsRecords.vis hI trivial (fun _ => rfl) fun _ => ?_
  refine Triple.vis (I := fun _ => Having .ioctl cs I) (hI.having _)
    (fun w _ _ => mayDo_of_revocation trivial) ?_ fun _ => keepsRecords_pure hI a
  intro w L e x w' hw _ hinv _ he
  have he : World.exec .ioctl (.freePool addr) e w = some (x, w') := he
  have hf := World.exec_frame he
  obtain ⟨hinv', hguar, howns⟩ := exec_freePool he hinv hw.1
  exact ⟨hinv', hguar, howns, hI.ofContext w w' hf.ctx hf.started hw.2⟩

/-- The allocation of a record, then the rest in each case. -/
theorem allocPool_views (hI : Fixed .ioctl I) {k : Op.allocPool.Ans → Drv α} {Q : α → World → Prop}
    (hnone : views.Triple driverMachine .ioctl (Having .ioctl cs I) (k none) Q)
    (hsome : ∀ a, views.Triple driverMachine .ioctl (Having .ioctl (bare a :: cs) I) (k (some a)) Q) :
    views.Triple driverMachine .ioctl (Having .ioctl cs I) (.vis .allocPool k) Q := by
  refine Triple.vis (I := fun r => Having .ioctl (allocated cs r) I) (hI.having cs) (fun w _ _ => ?_) ?_ fun r => ?_
  · refine ⟨fun m wc a h => ?_, fun data h => ?_, fun h => ?_⟩ <;> cases h
  · intro w L e x w' hw hl hinv _ he
    have he : World.exec .ioctl .allocPool e w = some (x, w') := he
    have hf := World.exec_frame he
    obtain ⟨hinv', hguar, howns⟩ := exec_allocPool he hl hinv hw.1
    exact ⟨hinv', hguar, howns, hI.ofContext w w' hf.ctx hf.started hw.2⟩
  · cases r with
    | none => exact hnone
    | some a => exact hsome a

theorem mappingProcess_views (hI : Fixed .ioctl I) : KeepsRecords cs I mappingProcess := by
  refine KeepsRecords.vis hI trivial (fun _ => rfl) fun r => ?_
  cases r with
  | none => exact keepsRecords_calm hI ((within_perform _).mpr ⟨trivial, fun _ => rfl⟩)
  | some p => exact keepsRecords_pure hI _

/-- An insertion either lists the record or leaves it with the request. -/
theorem exec_insertMapping {m : UserMapping} {e : Choice} {w w' : World} {x : Bool}
    {L : Tid → Prop} (he : w.exec .ioctl (.locked (.insertMapping m)) e = some (x, w'))
    (hinv : ViewsInv L w) (h : Owns .ioctl (m.charge :: cs) w) :
    ViewsInv L w' ∧ views.guar .ioctl w w' ∧
      Owns .ioctl (if x then cs else m.charge :: cs) w' := by
  obtain ⟨hx, hpool, hviews⟩ := exec_locked he
  have hctx : w'.ctx = ((Section.insertMapping m).run w.ctx).2 := (World.exec_frame he).ctx
  by_cases hlost : 0 ≤ m.tlbId ∧ w.ctx.tlbOwner m.tlbId.toNat ≠ some m.fileObject
  · have hrun : (Section.insertMapping m).run w.ctx = (false, w.ctx) := by
      simp only [Section.run, if_pos hlost]
    obtain rfl : x = false := hx.trans (congrArg Prod.fst hrun)
    obtain ⟨hinv', hguar, howns⟩ := exec_unmoved he (.inl rfl) hinv hpool
      (by rw [hctx, hrun]) (shown_of_views he (hviews ▸ List.Subset.refl _))
    exact ⟨hinv', hguar, howns _ h⟩
  · have hrun : (Section.insertMapping m).run w.ctx = (true, w.ctx.insertTail m) := by
      simp only [Section.run, if_neg hlost]
    obtain rfl : x = true := hx.trans (congrArg Prod.fst hrun)
    have hlist : w'.ctx.mappingList = w.ctx.mappingList ++ [m] := by
      rw [hctx, hrun]
      rfl
    exact exec_listed he hlist hpool hviews hinv h

theorem clear_of_section {s : Section} {e : Choice} {w w' : World} {x : s.Ans}
    (he : w.exec .ioctl (.locked s) e = some (x, w')) (h : Clear w) : Clear w' := by
  rw [Clear, (World.exec_frame he).ctx, Op.effect, Section.run_frame]
  exact h

theorem createUserMapping_views (fileObject : Option FileObject) (phys length : UInt64)
    (cacheMode : UInt32) (tlbId : Int) :
    KeepsRecords cs Clear (createUserMapping fileObject phys length cacheMode tlbId) := by
  have hI := fixed_clear
  cases fileObject with
  | none => exact keepsRecords_pure hI _
  | some fo =>
    refine Triple.bind (p := mappingProcess) views_steady (mappingProcess_views hI) fun p => ?_
    refine allocPool_views hI (keepsRecords_pure hI _) fun addr => ?_
    refine KeepsRecords.vis hI trivial (fun _ => rfl) fun _ => ?_
    refine Triple.bind (p := mapIoToUser phys length (cacheMode == 1) p addr) views_steady
      (mapIoToUser_views phys length _ p addr) fun r => ?_
    cases r with
    | error s => exact abandon_views hI p addr _
    | ok r =>
      obtain ⟨mdl, userVa⟩ := r
      let m : UserMapping := {
        addr, fileObject := fo, process := p, kind := .mdl, mdl := some mdl, sectionBase := 0, userVa
        length, tlbId }
      refine Triple.vis (I := fun inserted =>
          Having .ioctl (if inserted then cs else m.charge :: cs) Clear)
        (hI.having _) (fun w _ _ => ?_) ?_ fun inserted => ?_
      · refine ⟨fun m wc a h => ?_, fun data h => ?_, fun h => ?_⟩ <;> cases h
      · intro w L e x w' hw _ hinv _ he
        have he : World.exec .ioctl (.locked (.insertMapping m)) e w = some (x, w') := he
        have hm : Owns .ioctl (m.charge :: cs) w := by
          refine hw.1.replace fun v _ _ hv => ?_
          subst hv
          exact ⟨rfl, rfl, rfl⟩
        obtain ⟨hinv', hguar, howns⟩ := exec_insertMapping he hinv hm
        exact ⟨hinv', hguar, howns, clear_of_section he hw.2⟩
      · cases inserted with
        | true => exact keepsRecords_pure hI _
        | false =>
          exact Triple.bind (p := destroyMapping m) views_steady (destroyMapping_views hI m) fun _ =>
            keepsRecords_pure hI _

end Requests

end TtWind
