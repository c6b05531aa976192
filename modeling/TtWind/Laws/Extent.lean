import TtWind.Laws.Discipline

/-!
# How far the register block reaches

Whatever the pointer to the TLB registers shows mapped is as long as the block. Only the
hardware callbacks map registers; an address that is in use is not mapped again, so the only
new mapping the pointer can come to show is that of the block itself.
-/

set_option autoImplicit false

namespace TtWind

open TtWind.Effect TtWind.Effect.Prog TtWind.Effect.Protocol

/-- What is mapped at the pointer to the TLB registers is as long as the block. -/
def World.Spans (w : World) (p : IoPtr) : Prop :=
  ∀ m ∈ w.ioMaps, some m.base = p → m.len = tlbRegsLen

/-- The argument: the hardware callbacks count on the blocks staying as they are. -/
def extent : Protocol DriverSig Tid World where
  allow := Placed
  inv _ w := w.Spans w.ctx.tlbRegs
  known := MmioInv
  rely t w w' := t = .hardware → w.SameBlocks w'
  guar t w w' := t ≠ .hardware → w.SameBlocks w'
  pre _ _ _ := True
  post _ _ := True

theorem extent_steady : extent.Steady where
  refl _ w _ := .refl w
  trans _ _ _ _ h₁ h₂ ht := (h₁ ht).trans (h₂ ht)

theorem World.SameBlocks.tlbRegs {w w' : World} (h : w.SameBlocks w') :
    w'.ctx.tlbRegs = w.ctx.tlbRegs := congrFun h.ptr .tlbRegs

/-- Where the blocks are the same, the pointer shows as much mapped as before. -/
theorem World.SameBlocks.spans {w w' : World} (h : w.SameBlocks w')
    (hw : w.Spans w.ctx.tlbRegs) : w'.Spans w'.ctx.tlbRegs := by
  rw [World.Spans, h.ioMaps, h.tlbRegs]
  exact hw

/-! ## The threads that map nothing -/

/-- Only the hardware callbacks map registers, or unmap them. -/
theorem begins_leavesIo {L : Tid → Prop} {t : Tid} {p : Drv Unit} {w w' : World}
    (h : Begins L t p w w') (ht : t ≠ .hardware) : p.Only fun o : Op => ¬ o.movesIo := by
  refine begins_foot (fun _ o ho => ?_) (fun _ o ho => ?_) (fun o ho => ?_) (fun _ o ho => ?_) (fun o ho => ?_) h ht
  all_goals cases o <;> first | exact id | exact (ho : False).elim

/-- The other calls map no registers. -/
theorem extent_keeps {t : Tid} (ht : t ≠ .hardware) {p : Drv Unit}
    (hp : p.Only fun o : Op => ¬ o.movesIo) : extent.Keeps driverMachine t (fun _ => True) p := by
  refine Keeps.of_within (R := extent) (Stable.true t) (fun _ _ _ _ _ => trivial) ?_ hp
  intro o ho w L e x w' _ _ hinv ha he
  have he : World.exec t o e w = some (x, w') := he
  have hleaves : o.LeavesBlocks ∨ ∃ f, o = .store f := by
    cases o <;> first | exact .inl trivial | exact .inr ⟨_, rfl⟩ | exact absurd trivial ho
  have hs : w.SameBlocks w' := by
    rcases hleaves with hleaves | ⟨f, rfl⟩
    · exact exec_sameBlocks hleaves he
    · have hf := World.exec_frame he
      refine ⟨?_, hf.ioMaps id⟩
      rw [hf.ctx]
      exact (Placed.same ha ht).1
  exact ⟨hs.spans hinv, fun _ => hs, trivial, trivial⟩

/-! ## The hardware callbacks -/

/-- The pointer is NULL or shows something mapped. -/
def Rooted (w : World) : Prop := w.ctx.tlbRegs ≠ none → w.Mapped w.ctx.tlbRegs

/-- A hardware callback's predicate is stable if it is about the blocks. -/
theorem extent_stable {P : World → Prop} (hP : ∀ w w', w.SameBlocks w' → P w → P w') :
    extent.Stable .hardware P := fun w w' hr => hP w w' (hr rfl)

/-- So is the pointer rooted as before. -/
theorem rooted_same {w w' : World} (h : w.SameBlocks w') (hw : Rooted w) : Rooted w' := by
  rw [Rooted, World.Mapped, h.ioMaps, h.tlbRegs]
  exact hw

/-- Operations that map nothing and leave the pointer, or forget it. -/
def leavingFoot : Op → Prop
  | .mapIoSpace _ _ => False
  | .store f => ∀ c, (f c).tlbRegs = c.tlbRegs ∨ (f c).tlbRegs = none
  | _ => True

/-- Unmapping takes mappings away, and adds none. -/
theorem leaving_spans {t : Tid} {o : Op} {e : Choice} {w w' : World} {x : o.Ans}
    (ho : leavingFoot o) (he : w.exec t o e = some (x, w')) (hw : w.Spans w.ctx.tlbRegs) :
    w'.Spans w'.ctx.tlbRegs := by
  have hf := World.exec_frame he
  have hmaps : ∀ m ∈ w'.ioMaps, m ∈ w.ioMaps := by
    intro m hm
    by_cases hio : o.movesIo
    · obtain ⟨w₁, hs, rfl⟩ := World.exec_step he
      cases o with
      | mapIoSpace => exact ho.elim
      | unmapIoSpace p len =>
        obtain ⟨-, rfl⟩ := Prod.mk.inj (Option.some.inj hs)
        exact (List.mem_filter.mp hm).1
      | _ => exact hio.elim
    · rwa [hf.ioMaps hio] at hm
  have hptr : w'.ctx.tlbRegs = w.ctx.tlbRegs ∨ w'.ctx.tlbRegs = none := by
    rw [hf.ctx]
    cases o with
    | store f => exact ho w.ctx
    | locked s =>
      rw [Op.effect, Section.run_frame w.ctx s]
      exact .inl rfl
    | _ => exact .inl rfl
  intro m hm hbase
  rcases hptr with hptr | hptr
  · exact hw m (hmaps m hm) (hbase.trans hptr)
  · rw [hptr] at hbase
    cases hbase

/-- Code that only unmaps keeps the extent. -/
theorem leaving_keeps {α : Type} {p : Drv α} (hp : p.Only leavingFoot) :
    extent.Keeps driverMachine .hardware (fun _ => True) p := by
  refine Keeps.of_within (R := extent) (Stable.true _) (fun _ _ _ _ _ => trivial) ?_ hp
  intro o ho w L e x w' _ _ hinv _ he
  exact ⟨leaving_spans ho he hinv, fun h => absurd rfl h, trivial, trivial⟩

/-- Operations that leave the blocks. -/
def settledFoot (o : Op) : Prop := ¬ o.movesIo ∧ ∀ c, (o.effect c).ptr = c.ptr

theorem settledScope : HardwareScope settledFoot where
  silent o ho := by
    refine ⟨?_, fun c => ?_⟩
    · cases o <;> first | exact id | exact (ho : False).elim
    · cases o <;> first | rfl | exact (ho : False).elim
  store _ _ hp _ _ := ⟨id, hp⟩
  queryInterface := ⟨id, fun _ => rfl⟩
  dereferenceInterface := ⟨id, fun _ => rfl⟩
  allocContiguous _ _ _ := ⟨id, fun _ => rfl⟩
  bufferZero _ := ⟨id, fun _ => rfl⟩

/-- Code that neither maps nor unmaps keeps it too. -/
theorem rooted_keeps {α : Type} {p : Drv α} (hp : p.Only settledFoot) :
    extent.Keeps driverMachine .hardware Rooted p := by
  refine Keeps.of_within (R := extent) (extent_stable fun _ _ => rooted_same)
    (fun _ _ _ _ _ => trivial) ?_ hp
  intro o ho w L e x w' hw _ hinv _ he
  have he : World.exec .hardware o e w = some (x, w') := he
  have hf := World.exec_frame he
  have hio : w'.ioMaps = w.ioMaps := hf.ioMaps ho.1
  have hptr : w'.ctx.tlbRegs = w.ctx.tlbRegs := by
    rw [hf.ctx]
    exact congrFun (ho.2 w.ctx) .tlbRegs
  have hspans : w'.Spans w'.ctx.tlbRegs := by
    rw [World.Spans, hio, hptr]
    exact hinv
  refine ⟨hspans, fun h => absurd rfl h, ?_, trivial⟩
  rw [Rooted, World.Mapped, hio, hptr]
  exact hw

/-- A mapping at an address not in use is not at the pointer. -/
theorem mapped_apart {phys : UInt64} {len : Nat} {e : Choice} {w w' : World} {p : IoPtr}
    (he : w.exec .hardware (.mapIoSpace phys len) e = some (p, w')) :
    (∀ q, w.Mapped q → w'.Mapped q) ∧ (p ≠ none → w'.Mapped p) ∧
      (∀ q, w.Mapped q ∨ q = none → w.Spans q → w'.Spans q) ∧
      (len = tlbRegsLen → w'.Spans p) := by
  obtain ⟨w₁, hs, rfl⟩ := World.exec_step he
  cases e with
  | address a =>
    simp only [World.step, Option.ite_none_right_eq_some, Option.some.injEq, Prod.mk.injEq] at hs
    obtain ⟨hunused, rfl, rfl⟩ := hs
    have hne : ∀ m ∈ w.ioMaps, m.base ≠ a := by
      intro m hm hbase
      have hm := List.all_eq_true.mp hunused m hm
      simp [hbase] at hm
    refine ⟨fun q hq => ?_, fun _ => ⟨_, List.mem_cons_self, rfl⟩, fun q hq hspans m hm hbase => ?_,
      fun hlen m hm hbase => ?_⟩
    · obtain ⟨m, hm, hq⟩ := hq
      exact ⟨m, List.mem_cons_of_mem _ hm, hq⟩
    · rcases List.mem_cons.mp hm with rfl | hm
      · rcases hq with ⟨m', hm', hq⟩ | rfl
        · exact absurd (Option.some.inj (hq.trans hbase.symm)) (hne m' hm')
        · cases hbase
      · exact hspans m hm hbase
    · rcases List.mem_cons.mp hm with rfl | hm
      · exact hlen
      · exact absurd (Option.some.inj hbase) (hne m hm)
  | fail s =>
    obtain ⟨rfl, rfl⟩ := Prod.mk.inj (Option.some.inj hs)
    exact ⟨fun _ hq => hq, fun hn => absurd rfl hn, fun _ _ hspans => hspans,
      fun _ m _ hbase => by cases hbase⟩
  | _ => cases hs

section Hardware

variable {α : Type} {Q : α → World → Prop} {b : RegBlock}

/-- One step of a hardware callback. -/
theorem extent_vis {o : Op} {k : o.Ans → Drv α} {P : World → Prop} {I : o.Ans → World → Prop}
    (hP : ∀ w w', w.SameBlocks w' → P w → P w')
    (hstep : ∀ e x w w', P w → w.Spans w.ctx.tlbRegs → w.exec .hardware o e = some (x, w') →
      w'.Spans w'.ctx.tlbRegs ∧ I x w')
    (hk : ∀ x, extent.Triple driverMachine .hardware (I x) (k x) Q) :
    extent.Triple driverMachine .hardware P (.vis o k) Q := by
  refine Triple.vis (I := I) (extent_stable hP) (fun _ _ _ => trivial) ?_ hk
  intro w L e x w' hw _ hinv _ he
  obtain ⟨hspans, hI⟩ := hstep e x w w' hw hinv he
  exact ⟨hspans, fun h => absurd rfl h, hI⟩

/-- Another block is mapped. -/
theorem mapOther_extent {phys : UInt64} {len : Nat} {f : IoPtr → DeviceContext → DeviceContext}
    {k : IoPtr → Unit → Drv α} (hf : ∀ p, SetsPtr b p (f p)) (hb : b ≠ .tlbRegs)
    (hk : ∀ p, extent.Triple driverMachine .hardware Rooted (k p ()) Q) :
    extent.Triple driverMachine .hardware Rooted
      (.vis (.mapIoSpace phys len) fun p => .vis (.store (f p)) (k p)) Q := by
  refine extent_vis (I := fun _ => Rooted) (fun _ _ => rooted_same) ?_ fun p =>
    extent_vis (I := fun _ => Rooted) (fun _ _ => rooted_same) ?_ fun _ => hk p
  · intro e p w w' hw hspans he
    have hctx : w'.ctx = w.ctx := (World.exec_frame he).ctx
    obtain ⟨hmapped, -, hkeeps, -⟩ := mapped_apart he
    rw [Rooted, hctx]
    refine ⟨hkeeps _ ?_ hspans, fun hne => hmapped _ (hw hne)⟩
    by_cases hne : w.ctx.tlbRegs = none
    · exact .inr hne
    · exact .inl (hw hne)
  · intro e _ w w' hw hspans he
    have hframe := World.exec_frame he
    have hio : w'.ioMaps = w.ioMaps := hframe.ioMaps id
    have hptr : w'.ctx.tlbRegs = w.ctx.tlbRegs := by
      have hset := ((hf p).2 w.ctx).1
      rw [hframe.ctx]
      show (f p w.ctx).ptr .tlbRegs = w.ctx.ptr .tlbRegs
      rw [hset, Function.update_of_ne (Ne.symm hb)]
    rw [Rooted, World.Mapped, World.Spans, hio, hptr]
    exact ⟨hspans, hw⟩

/-- Mapping another block leaves that of the TLB registers. -/
theorem mapOptional_extent (covered : Bool) (phys : UInt64) (len : Nat)
    {f : IoPtr → DeviceContext → DeviceContext} (hf : ∀ p, SetsPtr b p (f p)) (hb : b ≠ .tlbRegs) :
    extent.Keeps driverMachine .hardware Rooted (mapOptional covered phys len f) :=
  Triple.ite (fun _ => mapOther_extent hf hb fun _ => Keeps.pure (extent_stable fun _ _ => rooted_same))
    fun _ => Keeps.pure (extent_stable fun _ _ => rooted_same)

/-- PrepareHardware maps the TLB registers at the length of the block. -/
theorem prepareHardware_extent (resources : List ResourceDesc) :
    extent.Triple driverMachine .hardware Rooted (evtDevicePrepareHardware resources)
      fun _ _ => True := by
  have hstable : extent.Stable .hardware Rooted := extent_stable fun _ _ => rooted_same
  have hdone : ∀ s : NtStatus, extent.Triple driverMachine .hardware Rooted (Pure.pure s : Drv NtStatus)
      fun _ _ => True := fun s => Triple.pure hstable fun _ _ => trivial
  refine Triple.bind extent_steady (rooted_keeps (readPciIdentity_only settledScope.identity)) fun _ => ?_
  refine Triple.ite (fun _ => hdone _) fun _ => ?_
  refine Triple.bind (p := store _) extent_steady
    (rooted_keeps ((within_perform _).mpr ⟨id, fun _ => rfl⟩)) fun _ => ?_
  refine Triple.bind (p := recordBars resources) extent_steady
    (rooted_keeps (recordBars_only settledScope.identity _)) fun _ => ?_
  refine Triple.bind (p := load) extent_steady
    (rooted_keeps ((within_perform _).mpr ⟨id, fun _ => rfl⟩)) fun c => ?_
  refine Triple.ite (fun _ => hdone _) fun _ => ?_
  -- the block itself: the mapping is noted, then the pointer set
  refine extent_vis (I := fun p w => w.Spans p ∧ (p ≠ none → w.Mapped p)) (fun _ _ => rooted_same) ?_
    fun p => extent_vis (I := fun _ => Rooted) ?_ ?_ fun _ => ?_
  · intro e p w w' hw hspans he
    have hctx : w'.ctx = w.ctx := (World.exec_frame he).ctx
    obtain ⟨-, hself, hkeeps, hlen⟩ := mapped_apart he
    rw [hctx]
    refine ⟨hkeeps _ ?_ hspans, hlen rfl, hself⟩
    by_cases hne : w.ctx.tlbRegs = none
    · exact .inr hne
    · exact .inl (hw hne)
  · intro w w' hs hw
    rw [World.Mapped, World.Spans, hs.ioMaps]
    exact hw
  · intro e _ w w' hw _ he
    have hframe := World.exec_frame he
    have hio : w'.ioMaps = w.ioMaps := hframe.ioMaps id
    have hptr : w'.ctx.tlbRegs = p := by
      rw [hframe.ctx]
      rfl
    rw [Rooted, World.Mapped, World.Spans, hio, hptr]
    exact hw
  refine Triple.ite (fun _ => hdone _) fun _ => mapOther_extent setsPtr_kernelTlb (fun h => by cases h) fun q => ?_
  refine Triple.ite (fun _ => ?_) fun _ => ?_
  · refine Triple.weaken (P := fun _ => True) (leaving_keeps ⟨trivial, fun _ _ => ⟨fun _ => .inr rfl, fun _ _ => trivial⟩⟩)
      (fun _ _ => trivial) fun _ _ h => h
  · refine Triple.bind extent_steady (mapOptional_extent _ _ _ setsPtr_arcApbAxi (fun h => by cases h)) fun _ => ?_
    refine Triple.bind extent_steady (mapOptional_extent _ _ _ setsPtr_nocIdRegs (fun h => by cases h)) fun _ => ?_
    refine Triple.bind extent_steady (mapOptional_extent _ _ _ setsPtr_bar2Iatu (fun h => by cases h)) fun _ => ?_
    exact Triple.bind extent_steady (rooted_keeps (sysmemAllocate_only settledScope)) fun _ => hdone _

theorem evtDeviceReleaseHardware_leaving : evtDeviceReleaseHardware.Only leavingFoot := by
  have hscope : HardwareScope leavingFoot := {
    silent := fun o ho => by cases o <;> trivial
    store := fun f _ hp _ _ c => .inl (congrFun (hp c) .tlbRegs)
    queryInterface := trivial
    dereferenceInterface := trivial
    allocContiguous := fun _ _ _ => trivial
    bufferZero := fun _ => trivial }
  have hrevoke : revokeAllMappings.Only leavingFoot :=
    ⟨trivial, fun _ _ => destroyAll_only ⟨trivial, fun _ => trivial, fun _ => trivial, fun _ => trivial,
      fun _ => trivial, fun _ _ => trivial, fun _ => trivial, fun _ => trivial, fun _ => trivial⟩ _⟩
  exact hrevoke.bind fun _ => releaseResources_only hscope (fun _ _ hp _ c => hp c .tlbRegs)
    (fun _ => trivial) (fun _ => trivial) (fun _ _ => trivial) fun _ _ => trivial

end Hardware

/-! ## The whole system -/

/-- Every call begins safely. -/
theorem begins_extent {L : Tid → Prop} {t : Tid} {p : Drv Unit} {w w' : World}
    (h : Begins L t p w w') (hnl : ¬ L t) (hknown : MmioInv L w) :
    extent.Safe driverMachine t p (fun _ _ => True) w' := by
  by_cases ht : t = .hardware
  · subst ht
    have hsame : w'.ctx = w.ctx ∧ w'.ioMaps = w.ioMaps := by cases h <;> exact ⟨rfl, rfl⟩
    cases h with
    | prepare resources p =>
      have hrooted : Rooted w := fun hne => (hknown.settled hnl).ready.mapped .tlbRegs hne
      exact Triple.bind extent_steady (prepareHardware_extent resources)
        (fun _ => Triple.pure (Stable.true _) fun _ _ => trivial) _ hrooted
    | release p => exact leaving_keeps evtDeviceReleaseHardware_leaving _ trivial
  · exact extent_keeps ht (begins_leavesIo h ht) w' trivial

theorem extent_sound : extent.Sound driver where
  toSteady := extent_steady
  initial w hw := by
    obtain ⟨buffer, rfl⟩ := hw
    intro m hm
    cases hm
  compat L t t' w w' _ _ hne _ _ hg ht' := by
    subst ht'
    exact hg hne
  begins L t p w w' hb hnl hinv hknown := by
    have hsame : w.SameBlocks w' := by
      have hctx := begins_ctx hb
      refine ⟨by rw [hctx], ?_⟩
      cases hb <;> rfl
    exact ⟨hsame.spans hinv, fun _ _ _ => hsame, begins_extent hb hnl hknown⟩
  ends L t w w' he _ hinv _ _ := by
    have hleave : w' = w.leave t := he
    have hsame : w.SameBlocks w' := by
      rw [hleave]
      cases t <;> exact ⟨rfl, rfl⟩
    exact ⟨hsame.spans hinv, fun _ _ _ => hsame⟩
  env L w w' he hinv _ := by
    have hsame : w.SameBlocks w' := by
      have hctx := environment_ctx he
      refine ⟨by rw [hctx], ?_⟩
      cases he <;> rfl
    exact ⟨hsame.spans hinv, fun _ _ _ => hsame⟩

/-- The mapping behind the pointer to the TLB registers is always as long as the block. -/
theorem reach_spans {c : DriverConfig} (h : Reach driver anyStep c) :
    c.world.Spans c.world.ctx.tlbRegs :=
  (extent_sound.good (reach_placed h) fun _ hc => reach_mmioInv hc.any).inv

end TtWind
