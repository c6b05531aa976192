import TtWind.Laws.Attempts
import TtWind.Laws.Rearm

/-!
# Where an attempt stops

An attempt to arm the buffer goes from stage to stage, and stops at the first check that fails or
behind all of them. `Stops` lists its histories, stage by stage. What the attempt records as its
stage is the one it stopped in, in any run (`attempt_stage`), so what the probes should be at the
stage recorded is what they should be at the stage reached. What its own writes make of the buffer
is decided by whether it came to the loopback (`sysmemArm_preserves_iff`), and among other threads
that is what becomes of it, as long as nobody else writes it (`arm_preserves_among_others`).
-/

set_option autoImplicit false

namespace TtWind

open TtWind.Effect TtWind.Effect.Prog

/-! ## The histories of an attempt -/

/-- The stage is recorded. -/
def entered (s : SysmemStage) : Event := ⟨.store fun c => { c with sysmemStage := s }, ()⟩

/-- The stage is entered: the checks before it have passed, in the history, latest first. -/
inductive Enters : SysmemStage → List Event → Prop where
  | noAlloc {c : DeviceContext} : c.sysmemVa = none → Enters .noAlloc [entered .noAlloc, ⟨.load, c⟩]
  | noRegs {c : DeviceContext} : c.sysmemVa ≠ none → (c.bar2Iatu = none ∨ c.kernelTlb = none ∨ c.tlbRegs = none) →
      Enters .noRegs [entered .noRegs, ⟨.load, c⟩]
  | tileDetect {c : DeviceContext} : c.sysmemVa ≠ none →
      ¬ (c.bar2Iatu = none ∨ c.kernelTlb = none ∨ c.tlbRegs = none) →
      Enters .tileDetect [entered .tileDetect, ⟨.load, c⟩]
  | iatu {before detect : List Event} {status : NtStatus} : Enters .tileDetect before →
      sysmemDetectPcieTile.Leads detect (.pure status) → status.ok = true →
      Enters .iatu (entered .iatu :: detect ++ before)
  | loopback {before program : List Event} {c : DeviceContext} {status : NtStatus} : Enters .iatu before →
      (iatuProgramOutbound 0 0 (c.sysmemSize - 1) c.sysmemPhys).Leads program (.pure status) → status.ok = true →
      Enters .loopback (entered .loopback :: program ++ ⟨.load, c⟩ :: before)
  | verified {before loopback : List Event} {status : NtStatus} : Enters .loopback before →
      sysmemLoopbackVerify.Leads loopback (.pure status) → status.ok = true →
      Enters .verified (entered .verified :: loopback ++ before)

/-- Where a finished attempt stopped, and what it returned. -/
inductive Stops : SysmemStage → NtStatus → List Event → Prop where
  | noAlloc {evs : List Event} : Enters .noAlloc evs → Stops .noAlloc .insufficientResources evs
  | noRegs {evs : List Event} : Enters .noRegs evs → Stops .noRegs .deviceNotReady evs
  | tileDetect {before detect : List Event} {status : NtStatus} : Enters .tileDetect before →
      sysmemDetectPcieTile.Leads detect (.pure status) → status.ok = false →
      Stops .tileDetect status (detect ++ before)
  | iatu {before program : List Event} {c : DeviceContext} {status : NtStatus} : Enters .iatu before →
      (iatuProgramOutbound 0 0 (c.sysmemSize - 1) c.sysmemPhys).Leads program (.pure status) → status.ok = false →
      Stops .iatu status (program ++ ⟨.load, c⟩ :: before)
  | loopback {before loopback : List Event} {status : NtStatus} : Enters .loopback before →
      sysmemLoopbackVerify.Leads loopback (.pure status) → status.ok = false →
      Stops .loopback status (loopback ++ before)
  | verified {before : List Event} : Enters .verified before →
      Stops .verified .success (⟨.store fun c => { c with sysmemVerified := true }, ()⟩ :: before)

/-- A finished attempt has stopped somewhere. -/
theorem armStages_stops {evs : List Event} {status : NtStatus} (h : armStages.Leads evs (.pure status)) :
    ∃ s, Stops s status evs := by
  obtain ⟨c, e₁, rfl, h₁⟩ := leads_perform_bind.mp h
  split at h₁
  · rename_i hva
    obtain ⟨-, e₂, rfl, h₂⟩ := leads_perform_bind.mp h₁
    obtain ⟨rfl, rfl⟩ := leads_pure.mp h₂
    exact ⟨_, .noAlloc (.noAlloc hva)⟩
  rename_i hva
  split at h₁
  · rename_i hregs
    obtain ⟨-, e₂, rfl, h₂⟩ := leads_perform_bind.mp h₁
    obtain ⟨rfl, rfl⟩ := leads_pure.mp h₂
    exact ⟨_, .noRegs (.noRegs hva hregs)⟩
  rename_i hregs
  obtain ⟨-, e₂, rfl, h₂⟩ := leads_perform_bind.mp h₁
  obtain ⟨found, detect, e₃, rfl, hdetect, h₃⟩ := leads_bind.mp h₂
  have htile : Enters .tileDetect [entered .tileDetect, ⟨.load, c⟩] := .tileDetect hva hregs
  split at h₃
  · rename_i hbad
    obtain ⟨rfl, rfl⟩ := leads_pure.mp h₃
    exact ⟨_, by simpa [entered] using Stops.tileDetect htile hdetect (by simpa using hbad)⟩
  rename_i hfound
  obtain ⟨-, e₄, rfl, h₄⟩ := leads_perform_bind.mp h₃
  obtain ⟨c', e₅, rfl, h₅⟩ := leads_perform_bind.mp h₄
  obtain ⟨mapped, program, e₆, rfl, hprogram, h₆⟩ := leads_bind.mp h₅
  have hiatu := Enters.iatu htile hdetect (by simpa using hfound)
  split at h₆
  · rename_i hbad
    obtain ⟨rfl, rfl⟩ := leads_pure.mp h₆
    exact ⟨_, by simpa [entered] using Stops.iatu hiatu hprogram (by simpa using hbad)⟩
  rename_i hmapped
  obtain ⟨-, e₇, rfl, h₇⟩ := leads_perform_bind.mp h₆
  obtain ⟨looped, loopback, e₈, rfl, hlooped, h₈⟩ := leads_bind.mp h₇
  have hloop := Enters.loopback hiatu hprogram (by simpa using hmapped)
  split at h₈
  · rename_i hbad
    obtain ⟨rfl, rfl⟩ := leads_pure.mp h₈
    exact ⟨_, by simpa [entered] using Stops.loopback hloop hlooped (by simpa using hbad)⟩
  rename_i hpassed
  obtain ⟨-, e₉, rfl, h₉⟩ := leads_perform_bind.mp h₈
  obtain ⟨-, e₁₀, rfl, h₁₀⟩ := leads_perform_bind.mp h₉
  obtain ⟨rfl, rfl⟩ := leads_pure.mp h₁₀
  exact ⟨_, by simpa [entered] using Stops.verified (.verified hloop hlooped (by simpa using hpassed))⟩

/-! ## The stage recorded -/

/-- What a history's operations make of the context. -/
def leaves (evs : List Event) (c : DeviceContext) : DeviceContext := evs.foldr (fun ev => ev.1.effect) c

/-- Operations that leave the stage, and ArcLock. -/
def Op.KeepsStage (o : Op) : Prop := (∀ c, (o.effect c).sysmemStage = c.sysmemStage) ∧ ¬ o.movesLock .arc

/-- Operations that leave the stage or record one, and leave ArcLock. -/
def Op.SetsStage (o : Op) : Prop :=
  ((∀ c, (o.effect c).sysmemStage = c.sysmemStage) ∨ ∃ s, ∀ c, (o.effect c).sysmemStage = s) ∧ ¬ o.movesLock .arc

theorem Op.KeepsStage.sets {o : Op} (h : o.KeepsStage) : o.SetsStage := ⟨.inl h.1, h.2⟩

theorem keepsStage_of_report {o : Op} (h : reportFoot o ∧ ¬ o.movesLock .arc) : o.KeepsStage := by
  refine ⟨fun c => ?_, h.2⟩
  cases o with
  | store f => exact (h.1 c).2.1
  | locked sec => rw [Op.effect, Section.run_frame c sec]
  | _ => rfl

/-- Operations that leave the stage, one after the other. -/
theorem leaves_of_keeps {evs : List Event} (h : ∀ ev ∈ evs, ev.1.KeepsStage) (c : DeviceContext) :
    (leaves evs c).sysmemStage = c.sysmemStage := by
  induction evs with
  | nil => rfl
  | cons ev evs ih =>
    have hlatest := (h ev List.mem_cons_self).1 (leaves evs c)
    exact hlatest.trans (ih fun ev hev => h ev (List.mem_cons_of_mem _ hev))

theorem leaves_append (after before : List Event) (c : DeviceContext) :
    leaves (after ++ before) c = leaves after (leaves before c) := List.foldr_append

theorem detect_keepsStage {evs : List Event} {status : NtStatus}
    (h : sysmemDetectPcieTile.Leads evs (.pure status)) : ∀ ev ∈ evs, ev.1.KeepsStage :=
  (h.only (sysmemDetectPcieTile_spares.mono fun _ => keepsStage_of_report)).2

theorem program_keepsStage {region : Nat} {base limit target : UInt64} {evs : List Event} {status : NtStatus}
    (h : (iatuProgramOutbound region base limit target).Leads evs (.pure status)) :
    ∀ ev ∈ evs, ev.1.KeepsStage :=
  (h.only ((iatuProgramOutbound_spares region base limit target).mono fun _ => keepsStage_of_report)).2

theorem loopback_keepsStage {evs : List Event} {status : NtStatus}
    (h : sysmemLoopbackVerify.Leads evs (.pure status)) : ∀ ev ∈ evs, ev.1.KeepsStage := by
  have hscope : MailScope (fun _ _ => True) Op.KeepsStage := mailScope_report.mono fun _ => keepsStage_of_report
  refine (h.only (sysmemLoopbackVerify_within hscope (fun f hf => ⟨fun c => ?_, id⟩) (fun _ _ => ⟨fun _ => rfl, id⟩)
    seenWindow_true)).2
  rw [Op.effect, hf c]

/-- A stage entered behind a check. -/
theorem sets_entered {s : SysmemStage} {after before : List Event} (hafter : ∀ ev ∈ after, ev.1.KeepsStage)
    (hbefore : ∀ ev ∈ before, ev.1.SetsStage) : ∀ ev ∈ entered s :: after ++ before, ev.1.SetsStage := by
  simp only [List.cons_append, List.mem_cons, List.mem_append]
  rintro ev (rfl | hev | hev)
  · exact ⟨.inr ⟨s, fun _ => rfl⟩, id⟩
  · exact (hafter ev hev).sets
  · exact hbefore ev hev

/-- Every operation on the way to a stage records a stage or leaves it. -/
theorem Enters.sets {s : SysmemStage} {evs : List Event} (h : Enters s evs) : ∀ ev ∈ evs, ev.1.SetsStage := by
  have hload : ∀ {before : List Event} (c : DeviceContext), (∀ ev ∈ before, ev.1.SetsStage) →
      ∀ ev ∈ (⟨.load, c⟩ :: before : List Event), ev.1.SetsStage :=
    fun c hbefore => List.forall_mem_cons.mpr ⟨⟨.inl fun _ => rfl, id⟩, hbefore⟩
  induction h with
  | @noAlloc c => exact @sets_entered _ [] _ (List.forall_mem_nil _) (hload c (List.forall_mem_nil _))
  | @noRegs c => exact @sets_entered _ [] _ (List.forall_mem_nil _) (hload c (List.forall_mem_nil _))
  | @tileDetect c => exact @sets_entered _ [] _ (List.forall_mem_nil _) (hload c (List.forall_mem_nil _))
  | iatu _ hdetect _ ih => exact sets_entered (detect_keepsStage hdetect) ih
  | @loopback _ _ c _ _ hprogram _ ih => exact sets_entered (program_keepsStage hprogram) (hload c ih)
  | verified _ hloopback _ ih => exact sets_entered (loopback_keepsStage hloopback) ih

/-- The stage entered is the one stored. -/
theorem Enters.leaves_stage {s : SysmemStage} {evs : List Event} (h : Enters s evs) (c : DeviceContext) :
    (leaves evs c).sysmemStage = s := by
  cases h <;> rfl

/-- After a stage is entered, what is left of the attempt leaves the stage. -/
theorem Stops.split {s : SysmemStage} {status : NtStatus} {evs : List Event} (h : Stops s status evs) :
    ∃ before after, evs = after ++ before ∧ Enters s before ∧ ∀ ev ∈ after, ev.1.KeepsStage := by
  cases h with
  | noAlloc h => exact ⟨evs, [], rfl, h, List.forall_mem_nil _⟩
  | noRegs h => exact ⟨evs, [], rfl, h, List.forall_mem_nil _⟩
  | @tileDetect before detect _ h hdetect => exact ⟨before, detect, rfl, h, detect_keepsStage hdetect⟩
  | @iatu before program c _ h hprogram =>
    refine ⟨before, program ++ [⟨.load, c⟩], by simp, h, fun ev hev => ?_⟩
    rcases List.mem_append.mp hev with hev | hev
    · exact program_keepsStage hprogram ev hev
    · obtain rfl := List.mem_singleton.mp hev
      exact ⟨fun _ => rfl, id⟩
  | @loopback before loopback _ h hloopback => exact ⟨before, loopback, rfl, h, loopback_keepsStage hloopback⟩
  | @verified before h =>
    refine ⟨before, [_], rfl, h, fun ev hev => ?_⟩
    obtain rfl := List.mem_singleton.mp hev
    exact ⟨fun _ => rfl, id⟩

/-- The attempt leaves recorded the stage it stopped in. -/
theorem Stops.leaves_stage {s : SysmemStage} {status : NtStatus} {evs : List Event} (h : Stops s status evs)
    (c : DeviceContext) : (leaves evs c).sysmemStage = s := by
  obtain ⟨before, after, rfl, hentered, hkept⟩ := h.split
  rw [leaves_append, leaves_of_keeps hkept, hentered.leaves_stage]

theorem Stops.sets {s : SysmemStage} {status : NtStatus} {evs : List Event} (h : Stops s status evs) :
    ∀ ev ∈ evs, ev.1.SetsStage := by
  obtain ⟨before, after, rfl, hentered, hkept⟩ := h.split
  intro ev hev
  rcases List.mem_append.mp hev with hev | hev
  · exact (hkept ev hev).sets
  · exact hentered.sets ev hev

/-! ### In a run -/

/-- While its operations leave ArcLock, the thread holds it, and the stage is the one they left. -/
def StageTold (t : Tid) (c : DeviceContext) (evs : List Event) (x : World × Attempts) : Prop :=
  (∀ ev ∈ evs, ev.1.SetsStage) → reported.Held t (fun v => v.stage = (leaves evs c).sysmemStage) x

theorem stable_stageTold {t : Tid} (ht : t.Works) (c : DeviceContext) (evs : List Event) :
    reported.protocol.Stable t (StageTold t c evs) :=
  fun x y hr h hsets => Guarded.stable_held ht x y hr (h hsets)

theorem own_stageTold {t : Tid} {c : DeviceContext} {evs : List Event} {o : Op} {a : o.Ans} {e : Choice}
    {x y : World × Attempts} (he : (driverMachine.observe attemptLog).exec t o e x = some (a, y))
    (h : StageTold t c evs x) : StageTold t c (⟨o, a⟩ :: evs) y := by
  intro hsets
  obtain ⟨hlock, hstage⟩ := h fun ev hev => hsets ev (List.mem_cons_of_mem _ hev)
  obtain ⟨ho, hmoves⟩ : o.SetsStage := hsets _ List.mem_cons_self
  have hf := World.exec_frame (watched_exec he).1
  refine ⟨(hf.arcLock hmoves).trans hlock, ?_⟩
  show y.1.ctx.sysmemStage = (o.effect (leaves evs c)).sysmemStage
  have hstage : x.1.ctx.sysmemStage = (leaves evs c).sysmemStage := hstage
  rw [hf.ctx]
  rcases ho with hkeeps | ⟨s, hs⟩
  · rw [hkeeps, hkeeps, hstage]
  · rw [hs, hs]

/-- Once the attempt of a thread that holds ArcLock has gone through, and until the thread gives the lock up, the
stage recorded is the one where the attempt stopped. -/
theorem attempt_stage {c c' : WatchedConfig Attempts} {t : Tid} {k : NtStatus → Drv Unit}
    (h : Reach (driver.observe attemptLog) attemptsApart c) (ht : t.Works)
    (hp : c.pool t = some (armStages >>= k)) (hlock : c.world.1.arcLock = some t)
    (hrun : During (driver.observe attemptLog) attemptsApart t c c') :
    ∃ evs q, c'.pool t = some q ∧ (armStages >>= k).Leads evs q ∧
      ∀ before after status, evs = after ++ before → armStages.Leads before (.pure status) →
        (∀ ev ∈ after, ev.1.KeepsStage) → ∃ s, Stops s status before ∧ c'.world.1.ctx.sysmemStage = s := by
  have hstart : StageTold t c.world.1.ctx [] c.world := fun _ => ⟨hlock, rfl⟩
  obtain ⟨evs, q, hq, hleads, htold⟩ := argued_report.during (stable_stageTold ht _)
    (fun he hx => own_stageTold he hx) h hrun hp hstart
  refine ⟨evs, q, hq, hleads, ?_⟩
  rintro before after status rfl hattempt hafter
  obtain ⟨s, hs⟩ := armStages_stops hattempt
  refine ⟨s, hs, ?_⟩
  have hcons : (after ++ before).foldr List.cons [] = after ++ before := List.foldr_cons_nil
  rw [hcons] at htold
  have hsets : ∀ ev ∈ after ++ before, ev.1.SetsStage := by
    intro ev hev
    rcases List.mem_append.mp hev with hev | hev
    · exact (hafter ev hev).sets
    · exact hs.sets ev hev
  have hstage : c'.world.1.ctx.sysmemStage = (leaves (after ++ before) c.world.1.ctx).sysmemStage := (htold hsets).state
  rw [hstage, leaves_append, leaves_of_keeps hafter, hs.leaves_stage]

/-! ## The buffer -/

/-- What an operation writes over the buffer. -/
def Op.overwrites : Op → (Nat → UInt8) → Nat → UInt8
  | .bufferWrite off v, b => leStore b off 4 v.toNat
  | .bufferZero len, b => fun i => if i < len.toNat then 0 else b i
  | _, b => b

/-- A step changes the buffer by what its operation writes. -/
theorem World.exec_overwrites {t : Tid} {o : Op} {e : Choice} {w w' : World} {x : o.Ans}
    (h : w.exec t o e = some (x, w')) : w'.buffer = o.overwrites w.buffer := by
  cases o with
  | bufferWrite off v =>
    obtain ⟨w₁, hs, rfl⟩ := World.exec_step h
    obtain ⟨-, rfl⟩ := Prod.mk.inj (Option.some.inj hs)
    rfl
  | bufferZero len =>
    obtain ⟨w₁, hs, rfl⟩ := World.exec_step h
    obtain ⟨-, rfl⟩ := Prod.mk.inj (Option.some.inj hs)
    rfl
  | _ => exact (World.exec_frame h).buffer id

/-- What a history's own operations make of the buffer. -/
def overwritten (evs : List Event) (b : Nat → UInt8) : Nat → UInt8 := evs.foldr (fun ev => ev.1.overwrites) b

theorem overwritten_append (after before : List Event) (b : Nat → UInt8) :
    overwritten (after ++ before) b = overwritten after (overwritten before b) := List.foldr_append

@[simp] theorem overwritten_entered (s : SysmemStage) (evs : List Event) (b : Nat → UInt8) :
    overwritten (entered s :: evs) b = overwritten evs b := rfl

@[simp] theorem overwritten_load (c : DeviceContext) (evs : List Event) (b : Nat → UInt8) :
    overwritten (⟨.load, c⟩ :: evs) b = overwritten evs b := rfl

theorem overwritten_still {evs : List Event} (h : ∀ ev ∈ evs, stillFoot ev.1) (b : Nat → UInt8) :
    overwritten evs b = b := by
  induction evs with
  | nil => rfl
  | cons ev evs ih =>
    have hrest := ih fun ev hev => h ev (List.mem_cons_of_mem _ hev)
    have hev := h ev List.mem_cons_self
    show ev.1.overwrites (overwritten evs b) = b
    rw [hrest]
    obtain ⟨o, x⟩ := ev
    cases o with
    | bufferWrite | bufferZero => exact (hev : False).elim
    | _ => rfl

/-- Both dwords of a probe. -/
theorem overwritten_probe {off : UInt64} {u v : UInt32} {p : Drv Unit} {evs : List Event}
    (h : (do op (.bufferWrite off.toNat u); op (.bufferWrite (off.toNat + 4) v); p : Drv Unit).Leads evs (.pure ())) :
    ∃ rest, p.Leads rest (.pure ()) ∧ ∀ b, overwritten evs b =
      overwritten rest (leStore (leStore b off.toNat 4 u.toNat) (off.toNat + 4) 4 v.toNat) := by
  obtain ⟨-, e₁, rfl, h₁⟩ := leads_perform_bind.mp h
  obtain ⟨-, e₂, rfl, h₂⟩ := leads_perform_bind.mp h₁
  refine ⟨e₂, h₂, fun b => ?_⟩
  rw [overwritten_append, overwritten_append]
  rfl

theorem overwritten_writeProbes {offs : List UInt64} {n : Nat} {evs : List Event}
    (h : (writeProbes n offs).Leads evs (.pure ())) {i : Nat} (hi : ¬ Probed offs i) (b : Nat → UInt8) :
    overwritten evs b i = b i := by
  induction offs generalizing n evs b with
  | nil =>
    obtain ⟨rfl, -⟩ := leads_pure.mp h
    rfl
  | cons off offs ih =>
    obtain ⟨rest, hrest, hsame⟩ := overwritten_probe h
    have hnot : ¬ InProbe off i := fun hin => hi ⟨off, .head _, hin⟩
    have hlater : ¬ Probed offs i := fun ⟨o, ho, hin⟩ => hi ⟨o, .tail _ ho, hin⟩
    rw [hsame, ih hrest hlater, probe_frame hnot]

theorem overwritten_zeroProbes {offs : List UInt64} {evs : List Event} (h : (zeroProbes offs).Leads evs (.pure ()))
    (b : Nat → UInt8) (i : Nat) :
    (Probed offs i → overwritten evs b i = 0) ∧ (¬ Probed offs i → overwritten evs b i = b i) := by
  induction offs generalizing evs b with
  | nil =>
    obtain ⟨rfl, -⟩ := leads_pure.mp h
    exact ⟨fun ⟨_, hmem, _⟩ => absurd hmem (by simp), fun _ => rfl⟩
  | cons off offs ih =>
    obtain ⟨rest, hrest, hsame⟩ := overwritten_probe h
    rw [hsame]
    obtain ⟨hzero, hkept⟩ := ih hrest (leStore (leStore b off.toNat 4 0) (off.toNat + 4) 4 0)
    by_cases hlater : Probed offs i
    · obtain ⟨o, ho, hin⟩ := hlater
      exact ⟨fun _ => hzero ⟨o, ho, hin⟩, fun hnot => absurd ⟨o, .tail _ ho, hin⟩ hnot⟩
    · refine ⟨?_, fun hnot => (hkept hlater).trans (probe_frame fun hin => hnot ⟨off, .head _, hin⟩)⟩
      rintro ⟨o, ho, hin⟩
      rcases List.mem_cons.mp ho with rfl | ho
      · exact (hkept hlater).trans (probe_zero hin)
      · exact absurd ⟨o, ho, hin⟩ hlater

/-- The loopback's own writes zero the bytes it probes, and leave the others. -/
theorem overwritten_loopback {evs : List Event} {status : NtStatus}
    (h : sysmemLoopbackVerify.Leads evs (.pure status)) : ∃ c : DeviceContext, (⟨.load, c⟩ : Event) ∈ evs ∧ ∀ b i,
      (Probed (loopbackOffsets c.sysmemSize) i → overwritten evs b i = 0) ∧
        (¬ Probed (loopbackOffsets c.sysmemSize) i → overwritten evs b i = b i) := by
  obtain ⟨c, e₁, rfl, h₁⟩ := leads_perform_bind.mp h
  obtain ⟨_, e₂, rfl, h₂⟩ := leads_perform_bind.mp h₁
  obtain ⟨_, writes, e₃, rfl, hwrites, h₃⟩ := leads_bind.mp h₂
  obtain ⟨_, e₄, rfl, h₄⟩ := leads_perform_bind.mp h₃
  obtain ⟨result, reads, e₅, rfl, hreads, h₅⟩ := leads_bind.mp h₄
  obtain ⟨_, zeros, e₆, rfl, hzeros, h₆⟩ := leads_bind.mp h₅
  obtain ⟨rfl, -⟩ := leads_pure.mp h₆
  have hstill := (hreads.only (verifyProbes_within arcScope_stillFoot.toMailScope (fun _ => arcScope_stillFoot.probes)
    seenWindow_any _ _)).2
  refine ⟨c, by simp, fun b i => ?_⟩
  simp only [overwritten_append]
  rw [overwritten_still hstill]
  obtain ⟨hzero, hkept⟩ := overwritten_zeroProbes hzeros (overwritten writes b) i
  exact ⟨hzero, fun hnot => (hkept hnot).trans (overwritten_writeProbes hwrites hnot b)⟩

theorem detect_still {evs : List Event} {status : NtStatus} (h : sysmemDetectPcieTile.Leads evs (.pure status))
    (b : Nat → UInt8) : overwritten evs b = b :=
  overwritten_still (h.only (sysmemDetectPcieTile_within arcScope_stillFoot)).2 b

theorem program_still {base limit target : UInt64} {evs : List Event} {status : NtStatus}
    (h : (iatuProgramOutbound 0 base limit target).Leads evs (.pure status)) (b : Nat → UInt8) :
    overwritten evs b = b :=
  overwritten_still (h.only (iatuProgramOutbound_within arcScope_stillFoot
    ⟨{ bar2Iatu := some 0 }, trivial, by simp⟩ 0 base limit target)).2 b

/-- On the way to the loopback nothing is written. -/
theorem Enters.still {s : SysmemStage} {evs : List Event} (h : Enters s evs) (hs : s ≠ .verified) (b : Nat → UInt8) :
    overwritten evs b = b := by
  induction h with
  | noAlloc | noRegs | tileDetect => rfl
  | iatu _ hdetect _ ih =>
    rw [overwritten_append, ih nofun, overwritten_entered, detect_still hdetect]
  | loopback _ hprogram _ ih =>
    rw [overwritten_append, overwritten_load, ih nofun, overwritten_entered, program_still hprogram]
  | verified => exact absurd rfl hs

theorem Enters.load_mem {s : SysmemStage} {evs : List Event} (h : Enters s evs) :
    ∃ c : DeviceContext, (⟨.load, c⟩ : Event) ∈ evs := by
  have hbehind : ∀ {ev : Event} {after before : List Event}, (∃ c : DeviceContext, (⟨.load, c⟩ : Event) ∈ before) →
      ∃ c : DeviceContext, (⟨.load, c⟩ : Event) ∈ ev :: after ++ before :=
    fun ⟨c, hc⟩ => ⟨c, List.mem_cons_of_mem _ (List.mem_append_right _ hc)⟩
  induction h with
  | noAlloc | noRegs | tileDetect => exact ⟨_, List.mem_cons_of_mem _ List.mem_cons_self⟩
  | iatu _ _ _ ih => exact hbehind ih
  | loopback => exact hbehind ⟨_, List.mem_cons_self⟩
  | verified _ _ _ ih => exact hbehind ih

/-- What zeroes some bytes and leaves the others preserves a buffer exactly if those are zero in it. -/
theorem overwritten_eq_iff {evs : List Event} {P : Nat → Prop} {b : Nat → UInt8}
    (h : ∀ i, (P i → overwritten evs b i = 0) ∧ (¬ P i → overwritten evs b i = b i)) :
    overwritten evs b = b ↔ ∀ i, P i → b i = 0 := by
  constructor
  · intro hsame i hi
    rw [← hsame]
    exact (h i).1 hi
  · intro hzero
    funext i
    by_cases hi : P i
    · rw [(h i).1 hi, hzero i hi]
    · exact (h i).2 hi

/-- An attempt's own writes preserve a buffer exactly if it stops before the loopback, or every byte the loopback
probes is zero already. -/
theorem Stops.preserves_iff {s : SysmemStage} {status : NtStatus} {evs : List Event} (h : Stops s status evs) :
    ∃ c : DeviceContext, (⟨.load, c⟩ : Event) ∈ evs ∧ ∀ b, overwritten evs b = b ↔
      s.early = true ∨ ∀ i, Probed (loopbackOffsets c.sysmemSize) i → b i = 0 := by
  have hearly : s.early = true → (∀ b, overwritten evs b = b) → ∃ c : DeviceContext, (⟨.load, c⟩ : Event) ∈ evs ∧
      ∀ b, overwritten evs b = b ↔ s.early = true ∨ ∀ i, Probed (loopbackOffsets c.sysmemSize) i → b i = 0 := by
    intro hs hsame
    obtain ⟨before, after, rfl, hentered, -⟩ := h.split
    obtain ⟨c, hc⟩ := hentered.load_mem
    exact ⟨c, List.mem_append_right _ hc, fun b => iff_of_true (hsame b) (.inl hs)⟩
  cases h with
  | noAlloc h => exact hearly rfl (h.still nofun)
  | noRegs h => exact hearly rfl (h.still nofun)
  | tileDetect h hdetect =>
    refine hearly rfl fun b => ?_
    rw [overwritten_append, h.still nofun, detect_still hdetect]
  | iatu h hprogram =>
    refine hearly rfl fun b => ?_
    rw [overwritten_append, overwritten_load, h.still nofun, program_still hprogram]
  | loopback h hloopback =>
    obtain ⟨c, hc, hwritten⟩ := overwritten_loopback hloopback
    refine ⟨c, List.mem_append_left _ hc, fun b => ?_⟩
    rw [overwritten_append, h.still nofun, overwritten_eq_iff (hwritten b)]
    exact ⟨.inr, fun hor => hor.resolve_left nofun⟩
  | verified h =>
    cases h with
    | @verified before loopback _ h hloopback =>
      obtain ⟨c, hc, hwritten⟩ := overwritten_loopback hloopback
      refine ⟨c, by simp [hc], fun b => ?_⟩
      have hsame : overwritten (entered .verified :: loopback ++ before) b = overwritten loopback b := by
        rw [overwritten_append, h.still nofun, overwritten_entered]
      show overwritten (entered .verified :: loopback ++ before) b = b ↔ _
      rw [hsame, overwritten_eq_iff (hwritten b)]
      exact ⟨.inr, fun hor => hor.resolve_left nofun⟩

/-- What the own writes of a finished arm make of a buffer. The arm of a device that is to be initialised is no
attempt, and writes nothing; any other is one attempt. -/
theorem sysmemArm_preserves_iff {evs : List Event} {status : NtStatus} (h : sysmemArm.Leads evs (.pure status)) :
    (∃ c : DeviceContext, (⟨.load, c⟩ : Event) ∈ evs ∧ c.needsHwInit = true ∧ ∀ b, overwritten evs b = b) ∨
      ∃ before attempt after s, evs = after ++ attempt ++ before ∧ Stops s status attempt ∧
        ∃ c : DeviceContext, (⟨.load, c⟩ : Event) ∈ attempt ∧ ∀ b, overwritten evs b = b ↔
          s.early = true ∨ ∀ i, Probed (loopbackOffsets c.sysmemSize) i → b i = 0 := by
  obtain ⟨_, e₁, rfl, h₁⟩ := leads_perform_bind.mp h
  obtain ⟨result, locked, e₂, rfl, hlocked, h₂⟩ := leads_bind.mp h₁
  obtain ⟨_, e₃, rfl, h₃⟩ := leads_perform_bind.mp h₂
  obtain ⟨rfl, rfl⟩ := leads_pure.mp h₃
  obtain ⟨_, e₄, rfl, h₄⟩ := leads_perform_bind.mp hlocked
  obtain ⟨c, e₅, rfl, h₅⟩ := leads_perform_bind.mp h₄
  split at h₅
  · rename_i hneeds
    obtain ⟨rfl, -⟩ := leads_pure.mp h₅
    exact .inl ⟨c, by simp, hneeds, fun _ => rfl⟩
  · obtain ⟨_, attempt, e₆, rfl, hattempt, h₆⟩ := leads_bind.mp h₅
    obtain ⟨_, e₇, rfl, h₇⟩ := leads_perform_bind.mp h₆
    obtain ⟨rfl, rfl⟩ := leads_pure.mp h₇
    obtain ⟨s, hs⟩ := armStages_stops hattempt
    obtain ⟨c', hc', hiff⟩ := hs.preserves_iff
    refine .inr ⟨[⟨.load, c⟩, ⟨.store fun c => { c with sysmemVerified := false }, ()⟩, ⟨.acquire .arc, ()⟩], attempt,
      [⟨.release .arc, ()⟩, ⟨.store fun c => { c with sysmemLastStatus := status }, ()⟩], s, by simp, hs, c', hc',
      fun b => ?_⟩
    simp only [overwritten_append]
    exact hiff b

/-- A run within a call of the thread in which the others step as they like, but nobody else writes the buffer: no
other thread, and neither an application nor the device. -/
def DuringAlone (t : Tid) : DriverConfig → DriverConfig → Prop :=
  Relation.ReflTransGen fun c c' => (∃ (o : Op) (x : o.Ans), Own driver anyStep t o x c c') ∨
    (Step driver anyStep c c' ∧ c'.pool t = c.pool t ∧ c'.world.buffer = c.world.buffer)

/-- In such a run the buffer is what the thread's own writes have made of it. -/
theorem DuringAlone.buffer {t : Tid} {c c' : DriverConfig} (h : DuringAlone t c c') {p : Drv Unit}
    (hp : c.pool t = some p) :
    ∃ evs q, c'.pool t = some q ∧ p.Leads evs q ∧ c'.world.buffer = overwritten evs c.world.buffer := by
  induction h with
  | refl => exact ⟨[], p, hp, .start, rfl⟩
  | @tail c₁ c₂ _ hstep ih =>
    obtain ⟨evs, q, hq, hleads, hbuffer⟩ := ih
    rcases hstep with ⟨o, x, hown⟩ | ⟨-, hpool, hsame⟩
    · cases hown with
      | @exec k e w hpool _ he =>
        obtain rfl := Option.some.inj (hq.symm.trans hpool)
        have he : c₁.world.exec t o e = some (x, w) := he
        refine ⟨⟨o, x⟩ :: evs, k x, c₁.set_pool_self w t _, .step x hleads, ?_⟩
        rw [c₁.set_world w t, World.exec_overwrites he, hbuffer]
        rfl
    · exact ⟨evs, q, hpool.trans hq, hleads, hsame.trans hbuffer⟩

/-- In such a run, an arm that has returned has preserved the buffer exactly if it was no attempt or stopped before
the loopback, or every byte the loopback probes was zero. -/
theorem arm_preserves_among_others {t : Tid} {c c' : DriverConfig} {k : NtStatus → Drv Unit}
    (hp : c.pool t = some (sysmemArm >>= k)) (hrun : DuringAlone t c c') :
    ∃ evs q, c'.pool t = some q ∧ (sysmemArm >>= k).Leads evs q ∧ ∀ status, sysmemArm.Leads evs (.pure status) →
      (∃ c₀ : DeviceContext, (⟨.load, c₀⟩ : Event) ∈ evs ∧ c₀.needsHwInit = true ∧
          c'.world.buffer = c.world.buffer) ∨
        ∃ before attempt after s, evs = after ++ attempt ++ before ∧ Stops s status attempt ∧
          ∃ c₀ : DeviceContext, (⟨.load, c₀⟩ : Event) ∈ attempt ∧ (c'.world.buffer = c.world.buffer ↔
            s.early = true ∨ ∀ i, Probed (loopbackOffsets c₀.sysmemSize) i → c.world.buffer i = 0) := by
  obtain ⟨evs, q, hq, hleads, hbuffer⟩ := hrun.buffer hp
  refine ⟨evs, q, hq, hleads, fun status hreturned => ?_⟩
  rw [hbuffer]
  rcases sysmemArm_preserves_iff hreturned with ⟨c₀, hload, hneeds, hsame⟩ | hattempt
  · exact .inl ⟨c₀, hload, hneeds, hsame _⟩
  · obtain ⟨before, attempt, after, s, hevs, hs, c₀, hload, hiff⟩ := hattempt
    exact .inr ⟨before, attempt, after, s, hevs, hs, c₀, hload, hiff _⟩

end TtWind
