import TtWind.Laws.Allocator
import TtWind.Laws.Discipline
import TtWind.Laws.Pages
import TtWind.Laws.Regions
import TtWind.Laws.Revocation

/-!
# Windows and the mappings that show them

Which windows a listed mapping shows is told from the page frames of its MDL. A mapping of
MAP_TLB shows its own window and no other. MAP_BAR maps any range of BAR 0, and no check of it,
or of FREE_TLB, asks about the windows in that range. As long as MAP_BAR stays off the windows that are not its handle's,
and FREE_TLB off those that a MAP_BAR mapping shows, every window shown is a user window of the
handle that shows it.
-/

set_option autoImplicit false

namespace TtWind

open TtWind.Effect TtWind.Effect.Prog TtWind.Effect.Protocol

/-! ## The windows a mapping shows -/

/-- One of these page frames lies, in part at least, in window `i` of BAR 0. -/
def PagesMeet (pfns : List UInt64) (bar0 : Bar) (i : Nat) : Prop :=
  ∃ pfn ∈ pfns, pfn.toNat * 4096 < bar0.phys.toNat + (i + 1) * tlb2mSize.toNat ∧
    bar0.phys.toNat + i * tlb2mSize.toNat < pfn.toNat * 4096 + 4096

/-- A page of the MDL lies in window `i`. -/
def Mdl.Meets (m : Mdl) (bar0 : Bar) (i : Nat) : Prop := PagesMeet m.pfns bar0 i

/-- The mapping shows window `i`. A view of the sysmem buffer is host memory, and shows none. -/
def UserMapping.Meets (m : UserMapping) (bar0 : Bar) (i : Nat) : Prop :=
  ∃ mdl, m.mdl = some mdl ∧ mdl.Meets bar0 i

instance (pfns : List UInt64) (bar0 : Bar) (i : Nat) : Decidable (PagesMeet pfns bar0 i) :=
  inferInstanceAs (Decidable (∃ pfn ∈ pfns, _))

instance (m : Mdl) (bar0 : Bar) (i : Nat) : Decidable (m.Meets bar0 i) :=
  inferInstanceAs (Decidable (PagesMeet m.pfns bar0 i))

instance (m : UserMapping) (bar0 : Bar) (i : Nat) : Decidable (m.Meets bar0 i) :=
  decidable_of_iff (m.mdl.any fun mdl => mdl.Meets bar0 i) (by simp [UserMapping.Meets, Option.any_eq_true])

/-- What a listed mapping shows of the windows are user windows that its handle owns. -/
def DeviceContext.Isolated (c : DeviceContext) : Prop :=
  ∀ m ∈ c.mappingList, ∀ i < tlb2mCount, m.Meets (c.bars 0) i →
    i ≠ kernelTlbIndex ∧ c.tlbOwner i = some m.fileObject

/-- A shift as a signed number lands far above any address in the top half. -/
theorem signedShift_high {a : UInt64} (h : 2 ^ 63 ≤ a.toNat) :
    2 ^ 64 - 2 ^ 51 ≤ (a.toInt64 >>> 12).toUInt64.toNat := by
  have hmsb : a.toBitVec.msb = true := by
    rw [BitVec.msb_eq_true_iff_two_mul_ge]
    show 2 ^ 64 ≤ 2 * a.toNat
    omega
  have hnot : (~~~a.toBitVec).toNat = 2 ^ 64 - 1 - a.toNat := BitVec.toNat_not
  have hshift : (~~~a.toBitVec >>> 12).toNat = (2 ^ 64 - 1 - a.toNat) / 4096 := by
    rw [BitVec.toNat_ushiftRight, hnot, Nat.shiftRight_eq_div_pow]
  have hnat : (a.toInt64 >>> 12).toUInt64.toNat = 2 ^ 64 - 1 - (2 ^ 64 - 1 - a.toNat) / 4096 := by
    show (a.toBitVec.sshiftRight 12).toNat = _
    rw [BitVec.sshiftRight_eq_of_msb_true hmsb, BitVec.toNat_not, hshift]
  rw [hnat]
  have hlt := a.toNat_lt
  omega

theorem mem_mdlOf {phys length pfn : UInt64} (h : pfn ∈ (mdlOf phys length).pfns) :
    ∃ k < (length >>> 12).toUInt32.toNat,
      pfn.toNat = ((phys.toInt64 >>> 12).toUInt64.toNat + k % 2 ^ 64) % 2 ^ 64 := by
  obtain ⟨k, hk, rfl⟩ := List.mem_map.mp h
  refine ⟨k, List.mem_range.mp hk, ?_⟩
  rw [UInt64.toNat_add, UInt64.toNat_ofNat']

/-- The MDL of window `i` of a page aligned BAR 0 shows no other window, also where the address wraps. -/
theorem mdlOf_meets {bar0 : Bar} {offset : UInt64} {i j : Nat} (hb : bar0.phys.toNat % 4096 = 0)
    (ho : offset.toNat = i * (2 * 1024 * 1024)) (hi : i < 2 ^ 32) (hj : j < tlb2mCount)
    (h : (mdlOf (bar0.phys + offset) tlb2mSize).Meets bar0 j) : j = i := by
  obtain ⟨pfn, hpfn, hlo, hhi⟩ := h
  obtain ⟨k, hk, hpage⟩ := mem_mdlOf hpfn
  have hcount : (tlb2mSize >>> 12).toUInt32.toNat = 512 := by decide +kernel
  have hsize : tlb2mSize.toNat = 2 * 1024 * 1024 := rfl
  have hphys := bar0.phys.toNat_lt
  have hstart : (bar0.phys + offset).toNat = (bar0.phys.toNat + offset.toNat) % 2 ^ 64 := UInt64.toNat_add _ _
  unfold tlb2mCount at hj
  rw [hcount] at hk
  rw [hsize] at hlo hhi
  by_cases htop : (bar0.phys + offset).toNat < 2 ^ 63
  · have hbase := signedShift_toNat htop
    omega
  · have hbase := signedShift_high (Nat.not_lt.mp htop)
    have hbound := ((bar0.phys + offset).toInt64 >>> 12).toUInt64.toNat_lt
    omega

/-! ## The sections -/

/-- Windows are shown only by their owner's mappings, and by a mapping of MAP_TLB only its own. -/
structure DeviceContext.IsolationInv (c : DeviceContext) : Prop where
  owned : c.Isolated
  window : ∀ m ∈ c.mappingList, 0 ≤ m.tlbId → ∀ i < tlb2mCount, m.Meets (c.bars 0) i → (i : Int) = m.tlbId

/-- What a section needs for that to survive it. -/
def Section.Apart (c : DeviceContext) : Section → Prop
  | .fence => c.mappingList = []
  | .appendMapping m => m.mdl = none
  | .insertMapping m =>
    if 0 ≤ m.tlbId then ∀ i < tlb2mCount, m.Meets (c.bars 0) i → (i : Int) = m.tlbId
    else ∀ i < tlb2mCount, m.Meets (c.bars 0) i → i ≠ kernelTlbIndex ∧ c.tlbOwner i = some m.fileObject
  | .freeTlb fo id => c.tlbOwner id = some fo → ∀ m ∈ c.mappingList, m.tlbId < 0 → ¬ m.Meets (c.bars 0) id
  | _ => True

theorem UserMapping.not_meets {m : UserMapping} {bar0 : Bar} {i : Nat} (h : m.mdl = none) : ¬ m.Meets bar0 i := by
  rintro ⟨mdl, hmdl, -⟩
  cases h.symm.trans hmdl

namespace DeviceContext.IsolationInv

variable {c : DeviceContext}

/-- Nothing that shows device memory is listed. -/
theorem of_bare (h : ∀ m ∈ c.mappingList, m.mdl = none) : c.IsolationInv :=
  ⟨fun m hm _ _ hmeets => absurd hmeets (UserMapping.not_meets (h m hm)),
    fun m hm _ _ _ hmeets => absurd hmeets (UserMapping.not_meets (h m hm))⟩

/-- Records go, and windows that the remaining ones do not show change hands. -/
theorem congr {c' : DeviceContext} (h : c.IsolationInv) (hbars : c'.bars = c.bars)
    (hlist : ∀ m ∈ c'.mappingList, m ∈ c.mappingList)
    (howner : ∀ m ∈ c'.mappingList, ∀ i < tlb2mCount, m.Meets (c.bars 0) i → c.tlbOwner i = some m.fileObject →
      c'.tlbOwner i = some m.fileObject) : c'.IsolationInv := by
  refine ⟨fun m hm i hi hmeets => ?_, fun m hm htlb i hi hmeets => ?_⟩
  · rw [hbars] at hmeets
    obtain ⟨huser, hown⟩ := h.owned m (hlist m hm) i hi hmeets
    exact ⟨huser, howner m hm i hi hmeets hown⟩
  · rw [hbars] at hmeets
    exact h.window m (hlist m hm) htlb i hi hmeets

theorem insertTail {m : UserMapping} (h : c.IsolationInv)
    (howned : ∀ i < tlb2mCount, m.Meets (c.bars 0) i → i ≠ kernelTlbIndex ∧ c.tlbOwner i = some m.fileObject)
    (hwindow : 0 ≤ m.tlbId → ∀ i < tlb2mCount, m.Meets (c.bars 0) i → (i : Int) = m.tlbId) :
    (c.insertTail m).IsolationInv := by
  refine ⟨fun m' hm' => ?_, fun m' hm' => ?_⟩
  · rcases List.mem_append.mp hm' with hm' | hm'
    · exact h.owned m' hm'
    · obtain rfl := List.mem_singleton.mp hm'
      exact howned
  · rcases List.mem_append.mp hm' with hm' | hm'
    · exact h.window m' hm'
    · obtain rfl := List.mem_singleton.mp hm'
      exact hwindow

end DeviceContext.IsolationInv

/-- Every section keeps the windows apart. -/
theorem Section.run_isolationInv {c : DeviceContext} (h : c.IsolationInv) (ha : c.AllocatorInv) (s : Section)
    (hs : s.Apart c) : (s.run c).2.IsolationInv := by
  cases s with
  | anyMapping | checkTlbOwner => exact h
  | fence =>
    refine .of_bare fun m hm => ?_
    rw [show (Section.run .fence c).2.mappingList = [] from hs] at hm
    cases hm
  | sweepAll => exact .of_bare nofun
  | appendMapping m =>
    exact h.insertTail (fun _ _ hmeets => absurd hmeets (UserMapping.not_meets hs))
      fun _ _ _ hmeets => absurd hmeets (UserMapping.not_meets hs)
  | insertMapping m =>
    simp only [run]
    split
    · exact h
    · rename_i hkept
      have hs : if 0 ≤ m.tlbId then _ else _ := hs
      split at hs
      · rename_i htlb
        have howner : c.tlbOwner m.tlbId.toNat = some m.fileObject := by_contra fun hn => hkept ⟨htlb, hn⟩
        refine h.insertTail (fun i hi hmeets => ?_) fun _ => hs
        have heq := hs i hi hmeets
        obtain rfl : m.tlbId.toNat = i := by omega
        refine ⟨fun hk => ?_, howner⟩
        rw [hk, ha.kernel] at howner
        cases howner
      · rename_i htlb
        exact h.insertTail hs fun h0 => absurd h0 htlb
  | takeMapping fo va =>
    simp only [run]
    split
    · exact h
    · exact h.congr rfl (fun m hm => List.mem_of_mem_eraseP hm) fun _ _ _ _ _ howner => howner
  | sweepFile fo =>
    refine h.congr rfl (fun m hm => (List.mem_filter.mp hm).1) fun m hm i _ _ howner => ?_
    -- the windows that are freed were the handle's, and so were the mappings that show them
    have hother : m.fileObject ≠ fo := by simpa using (List.mem_filter.mp hm).2
    simp only [run, howner, Option.some.injEq, hother, and_false, if_false]
  | allocateTlb fo =>
    simp only [run]
    split
    · exact h
    · rename_i id hid
      refine h.congr rfl (fun _ hm => hm) fun m _ i _ _ howner => ?_
      have hclear := (findClearBit_some hid).2
      have hne : i ≠ id := by
        rintro rfl
        have hset := (ha.bitmap i).mpr (.inl (by simp [howner]))
        rw [hclear] at hset
        cases hset
      exact (Function.update_of_ne hne _ _).trans howner
  | freeTlb fo id =>
    simp only [run]
    split
    · exact h
    · rename_i hcheck
      split
      · exact h
      · rename_i hmap
        refine h.congr rfl (fun _ hm => hm) fun m hm i hi hmeets howner => ?_
        have hne : i ≠ id := by
          rintro rfl
          have hfo : c.tlbOwner i = some fo := by
            by_contra hn
            exact hcheck (by simp [DeviceContext.checkTlbOwner, Nat.not_le.mpr hi, hn])
          by_cases htlb : 0 ≤ m.tlbId
          · refine hmap (List.any_eq_true.mpr ⟨m, hm, ?_⟩)
            simp [h.window m hm htlb i hi hmeets]
          · exact hs hfo m hm (Int.not_le.mp htlb) hmeets
        exact (Function.update_of_ne hne _ _).trans howner

/-! ## The protocol -/

/-- MAP_BAR lists no record that shows the kernel window or a window that is not its handle's,
FREE_TLB frees no window that a record of MAP_BAR shows, and MAP_TLB finds BAR 0 page aligned. -/
def keepsApart (_ : Tid) (o : Op) (w : World) : Prop :=
  match o with
  | .locked (.insertMapping m) =>
    if 0 ≤ m.tlbId then (w.ctx.bars 0).phys.toNat % 4096 = 0
    else ∀ i < tlb2mCount, m.Meets (w.ctx.bars 0) i → i ≠ kernelTlbIndex ∧ w.ctx.tlbOwner i = some m.fileObject
  | .locked (.freeTlb fo id) =>
    w.ctx.tlbOwner id = some fo → ∀ m ∈ w.ctx.mappingList, m.tlbId < 0 → ¬ m.Meets (w.ctx.bars 0) id
  | _ => True

/-- No mapping of device memory is listed. -/
def World.Unshown (w : World) : Prop := ∀ m ∈ w.ctx.mappingList, m.mdl = none

/-- The table of the BARs is the same. -/
structure World.SameBars (w w' : World) : Prop where
  bars : w'.ctx.bars = w.ctx.bars
  barCount : w'.ctx.barCount = w.ctx.barCount

/-- What the hardware callbacks leave: no BAR, and no view of one, while the device is stopped. -/
def World.Cleared (w : World) : Prop := w.started = false → w.ctx.barCount = 0 ∧ w.Unshown

def isolation : Protocol DriverSig Tid World where
  allow t o w := Placed t o w ∧ keepsApart t o w
  inv L w := w.ctx.IsolationInv ∧ (¬ L .hardware → w.Cleared)
  known L w := MmioInv L w ∧ w.ctx.AllocatorInv
  rely t w w' := (t.Drives → w'.started = w.started ∧ w.SameBars w') ∧
    (t = .ioctl → w.ctx.mappingList = [] → w'.ctx.mappingList = []) ∧
    (t = .hardware → w.Unshown → w'.Unshown)
  guar t w w' := w'.started = w.started ∧ (t ≠ .hardware → w.SameBars w') ∧
    (t ≠ .ioctl → ∀ m ∈ w'.ctx.mappingList, m ∈ w.ctx.mappingList)
  post t w := t = .hardware → w.Cleared

theorem isolation_steady : isolation.Steady where
  refl t w := ⟨fun _ => ⟨rfl, rfl, rfl⟩, fun _ => id, fun _ => id⟩
  trans t u v w h₁ h₂ := by
    obtain ⟨hsame₁, hnil₁, hbare₁⟩ := h₁
    obtain ⟨hsame₂, hnil₂, hbare₂⟩ := h₂
    refine ⟨fun ht => ?_, fun ht h => hnil₂ ht (hnil₁ ht h), fun ht h => hbare₂ ht (hbare₁ ht h)⟩
    obtain ⟨hstarted₁, hbars₁⟩ := hsame₁ ht
    obtain ⟨hstarted₂, hbars₂⟩ := hsame₂ ht
    exact ⟨hstarted₂.trans hstarted₁, hbars₂.bars.trans hbars₁.bars, hbars₂.barCount.trans hbars₁.barCount⟩

theorem stable_none_listed : isolation.Stable .ioctl fun w => w.ctx.mappingList = [] :=
  fun _ _ hr h => hr.2.1 rfl h

section Step

variable {t : Tid} {L : Tid → Prop} {o : Op} {e : Choice} {w w' : World} {x : o.Ans}

/-- What a section and a store of a thread must be for its steps to keep the protocol. -/
structure Op.Separates (o : Op) (t : Tid) (w : World) : Prop where
  apart : ∀ s, o = .locked s → s.Apart w.ctx
  shown : ∀ m, o = .locked (.insertMapping m) → w.ctx.barCount ≠ 0
  removes : ∀ s, o = .locked s → t ≠ .ioctl → s.Removes
  unshown : ∀ f, o = .store f → t = .hardware → w.Unshown

/-- A placed store leaves the tables. -/
theorem Placed.table {f : DeviceContext → DeviceContext} (h : Placed t (.store f) w) : TableFrame f := by
  by_cases ht : t = .hardware
  · rcases h with ⟨hworks, -⟩ | ⟨-, hf⟩
    · subst ht
      rcases hworks with hw | hw <;> cases hw
    · exact hf.table
  · exact (h.reset ht).table

theorem exec_bars (ha : Placed t o w) (ht : t ≠ .hardware ∨ ∀ f, o ≠ .store f)
    (he : w.exec t o e = some (x, w')) : w.SameBars w' := by
  have hf := World.exec_frame he
  have hsame : ∀ {c c' : DeviceContext}, c'.bars = c.bars ∧ c'.barCount = c.barCount → w.ctx = c → w'.ctx = c' →
      w.SameBars w' := by
    rintro c c' ⟨hb, hn⟩ rfl rfl
    exact ⟨hb, hn⟩
  cases o with
  | store f =>
    have hreset := Placed.reset ha (ht.resolve_right fun h => h f rfl)
    refine hsame ?_ rfl hf.ctx
    rw [Op.effect, hreset w.ctx]
    exact ⟨rfl, rfl⟩
  | locked s =>
    refine hsame ?_ rfl hf.ctx
    rw [Op.effect, Section.run_frame w.ctx s]
    exact ⟨rfl, rfl⟩
  | _ => exact hsame ⟨rfl, rfl⟩ rfl hf.ctx

/-- The records after a step were listed, or are what a section lists. -/
theorem exec_lists (ha : Placed t o w) (he : w.exec t o e = some (x, w')) {m : UserMapping}
    (hm : m ∈ w'.ctx.mappingList) :
    m ∈ w.ctx.mappingList ∨ o = .locked (.appendMapping m) ∨ o = .locked (.insertMapping m) := by
  rw [(World.exec_frame he).ctx] at hm
  cases o with
  | store f => exact .inl ((Placed.table ha w.ctx).1 ▸ hm)
  | locked s =>
    rcases Section.mem_of_run hm with hm | rfl | ⟨rfl, -⟩
    · exact .inl hm
    · exact .inr (.inl rfl)
    · exact .inr (.inr rfl)
  | _ => exact .inl hm

/-- One step. -/
theorem exec_isolation (hl : L t) (hinv : isolation.inv L w) (hknown : isolation.known L w)
    (ha : isolation.allow t o w) (ho : o.Separates t w) (he : w.exec t o e = some (x, w')) :
    isolation.inv L w' ∧ isolation.guar t w w' := by
  have hf := World.exec_frame he
  have hunshown : w.Unshown → (∀ m, o ≠ .locked (.insertMapping m)) → w'.Unshown := by
    intro hw hn m hm
    rcases exec_lists ha.1 he hm with hm | rfl | rfl
    · exact hw m hm
    · exact ho.apart _ rfl
    · exact absurd rfl (hn m)
  refine ⟨⟨?_, fun hn hstopped => ?_⟩, hf.started, fun ht => exec_bars ha.1 (.inl ht) he, fun ht m hm => ?_⟩
  · cases o with
    | store f =>
      by_cases ht : t = .hardware
      · exact .of_bare (hunshown (ho.unshown f rfl ht) nofun)
      · obtain ⟨hlist, howner, -⟩ := Placed.table ha.1 w.ctx
        have hctx : w'.ctx = f w.ctx := hf.ctx
        refine hinv.1.congr (exec_bars ha.1 (.inl ht) he).bars (fun m hm => ?_) fun m _ i _ _ hi => ?_
        · rw [hctx] at hm
          exact hlist ▸ hm
        · rw [hctx, howner]
          exact hi
    | locked s =>
      rw [hf.ctx]
      exact Section.run_isolationInv hinv.1 hknown.2 s (ho.apart s rfl)
    | _ =>
      rw [hf.ctx]
      exact hinv.1
  · have ht : t ≠ .hardware := by
      rintro rfl
      exact hn hl
    obtain ⟨hcount, hbare⟩ := hinv.2 hn (hf.started ▸ hstopped)
    refine ⟨(exec_bars ha.1 (.inl ht) he).barCount.trans hcount, hunshown hbare fun m hm => ?_⟩
    exact ho.shown m hm hcount
  · rcases exec_lists ha.1 he hm with hm | rfl | rfl
    · exact hm
    · exact (ho.removes _ rfl ht).elim
    · exact (ho.removes _ rfl ht).elim

end Step

/-! ## Code that lists no device memory -/

/-- Sections other than the fence and the insertion of a record. -/
def Section.Discreet (t : Tid) : Section → Prop
  | .insertMapping _ | .fence => False
  | .appendMapping m => t = .ioctl ∧ m.mdl = none
  | _ => True

def Op.Discreet (t : Tid) (o : Op) : Prop := ∀ s, o = .locked s → s.Discreet t

theorem discreet_of_not_locked {t : Tid} {o : Op} (h : ∀ s, o ≠ .locked s) : o.Discreet t :=
  fun s hs => absurd hs (h s)

theorem Op.Discreet.separates {t : Tid} {o : Op} {w : World} (h : o.Discreet t) (ha : keepsApart t o w)
    (hu : t = .hardware → w.Unshown) : o.Separates t w where
  apart s hs := by
    subst hs
    have hdiscreet := h s rfl
    cases s with
    | appendMapping m => exact hdiscreet.2
    | freeTlb fo id => exact ha
    | insertMapping | fence => exact hdiscreet.elim
    | _ => trivial
  shown m hm := by
    subst hm
    exact (h _ rfl).elim
  removes s hs ht := by
    have hdiscreet := h s hs
    cases s with
    | appendMapping m => exact ht hdiscreet.1
    | insertMapping => exact hdiscreet.elim
    | _ => trivial
  unshown _ _ ht := hu ht

section Discreet

variable {t : Tid} {P : World → Prop} {α : Type}

theorem discreet_keeps (hP : isolation.Stable t P) (hu : ∀ w, P w → t = .hardware → w.Unshown)
    (hstep : ∀ {o : Op} {e : Choice} {x : o.Ans} {w w' : World}, o.Discreet t → Placed t o w →
      w.exec t o e = some (x, w') → P w → P w')
    {p : Drv α} (hp : p.Only (Op.Discreet t)) : isolation.Keeps driverMachine t P p := by
  refine Keeps.of_within_known (J := fun _ _ => True) hP (fun _ _ _ _ _ _ _ _ _ => trivial) ?_ hp
  intro o ho w L e x w' hw hl hinv hknown ha he
  have he : w.exec t o e = some (x, w') := he
  obtain ⟨hinv', hguar⟩ := exec_isolation hl hinv hknown ha (ho.separates ha.2 (hu w hw)) he
  exact ⟨hinv', hguar, hstep ho ha.1 he hw, trivial⟩

/-- Outside the hardware callbacks. -/
theorem open_keeps (ht : t ≠ .hardware) {p : Drv α} (hp : p.Only (Op.Discreet t)) :
    isolation.Keeps driverMachine t (fun _ => True) p :=
  discreet_keeps (Stable.true t) (fun _ _ h => absurd h ht) (fun _ _ _ _ => trivial) hp

/-- The BARs are those that a load has shown. -/
structure Seen (c : DeviceContext) (w : World) : Prop where
  bars : w.ctx.bars = c.bars
  barCount : w.ctx.barCount = c.barCount

theorem stable_seen (c : DeviceContext) : isolation.Stable .ioctl (Seen c) := by
  intro w w' hr h
  have hbars : w.SameBars w' := (hr.1 trivial).2
  exact ⟨hbars.bars.trans h.bars, hbars.barCount.trans h.barCount⟩

theorem seen_step {c : DeviceContext} {o : Op} {e : Choice} {x : o.Ans} {w w' : World} (ha : Placed .ioctl o w)
    (he : w.exec .ioctl o e = some (x, w')) (h : Seen c w) : Seen c w' := by
  have hbars := exec_bars ha (.inl nofun) he
  exact ⟨hbars.bars.trans h.bars, hbars.barCount.trans h.barCount⟩

theorem seen_keeps {c : DeviceContext} {p : Drv α} (hp : p.Only (Op.Discreet .ioctl)) :
    isolation.Keeps driverMachine .ioctl (Seen c) p :=
  discreet_keeps (stable_seen c) (fun _ _ ht => by cases ht) (fun _ => seen_step) hp

end Discreet

theorem plain_discreet {t : Tid} {o : Op} (h : o.plain) : o.Discreet t :=
  discreet_of_not_locked fun s hs => by
    subst hs
    exact h

theorem making_discreet : MakingScope (Op.Discreet .ioctl) where
  currentProcess := discreet_of_not_locked nofun
  exitPending _ := discreet_of_not_locked nofun
  attach _ := discreet_of_not_locked nofun
  detach _ := discreet_of_not_locked nofun
  unmapView _ := discreet_of_not_locked nofun
  unmapLockedPages _ _ := discreet_of_not_locked nofun
  freeMdl _ := discreet_of_not_locked nofun
  dereferenceProcess _ := discreet_of_not_locked nofun
  freePool _ := discreet_of_not_locked nofun
  silent _ ho := plain_discreet ho.plain
  allocPool := discreet_of_not_locked nofun
  referenceProcess _ := discreet_of_not_locked nofun

/-! ## Making a mapping -/

section Making

variable {c : DeviceContext} {phys length : UInt64}

/-- What is mapped is the MDL of the range. -/
theorem mapIoToUser_isolation (wc : Bool) (p : Process) (addr : Nat) :
    isolation.Triple driverMachine .ioctl (Seen c) (mapIoToUser phys length wc p addr) fun r w =>
      Seen c w ∧ ∀ mdl va, r = .ok (mdl, va) → mdl = mdlOf phys length := by
  have hview := making_discreet.viewing
  have hdone : ∀ s : NtStatus, isolation.Triple driverMachine .ioctl (Seen c)
      (Pure.pure (.error s) : Drv (Except NtStatus (Mdl × UInt64)))
      fun r w => Seen c w ∧ ∀ mdl va, r = .ok (mdl, va) → mdl = mdlOf phys length :=
    fun _ => Triple.pure (stable_seen c) fun w hw => ⟨hw, nofun⟩
  refine Triple.bind (p := op (.allocMdl phys length.toUInt32)) isolation_steady
    (seen_keeps ((within_perform _).mpr (discreet_of_not_locked nofun))) fun _ => ?_
  refine Triple.ite (fun _ => hdone _) fun _ => ?_
  refine Triple.bind (p := attachTo p) isolation_steady (seen_keeps (attachTo_only hview p)) fun saved => ?_
  refine Triple.bind (p := op (.mapLockedPages _ wc addr)) isolation_steady
    (seen_keeps ((within_perform _).mpr (discreet_of_not_locked nofun))) fun r => ?_
  refine Triple.bind (p := detachFrom saved) isolation_steady (seen_keeps (detachFrom_only hview saved)) fun _ => ?_
  cases r with
  | error status =>
    refine Triple.bind (p := op (.freeMdl _)) isolation_steady
      (seen_keeps ((within_perform _).mpr (discreet_of_not_locked nofun))) fun _ => hdone _
  | ok va =>
    refine Triple.pure (stable_seen c) fun w hw => ⟨hw, fun mdl va' heq => ?_⟩
    obtain ⟨rfl, -⟩ := Prod.mk.inj (Except.ok.inj heq)
    rfl

/-- A record is listed for the range that was asked for. -/
theorem insert_separates {m : UserMapping} {w : World} (hseen : Seen c w) (hcount : c.barCount ≠ 0)
    (ha : keepsApart .ioctl (.locked (.insertMapping m)) w) (hm : m.mdl = some (mdlOf phys length))
    (hwindow : 0 ≤ m.tlbId → (c.bars 0).phys.toNat % 4096 = 0 →
      ∀ i < tlb2mCount, (mdlOf phys length).Meets (c.bars 0) i → (i : Int) = m.tlbId) :
    (Op.locked (.insertMapping m)).Separates .ioctl w where
  apart s hs := by
    obtain rfl := Op.locked.inj hs
    have ha : if 0 ≤ m.tlbId then _ else _ := ha
    show if 0 ≤ m.tlbId then _ else _
    split
    · rename_i htlb
      rw [if_pos htlb, hseen.bars] at ha
      rintro i hi ⟨mdl, hmdl, hmeets⟩
      obtain rfl := Option.some.inj (hm.symm.trans hmdl)
      rw [hseen.bars] at hmeets
      exact hwindow htlb ha i hi hmeets
    · rename_i htlb
      rwa [if_neg htlb] at ha
  shown _ _ := by
    rw [hseen.barCount]
    exact hcount
  removes _ _ ht := absurd rfl ht
  unshown _ hs := by cases hs

/-- The record that is listed shows only the window it is made for, if it is made for one. -/
theorem createUserMapping_isolation (fileObject : Option FileObject) (cacheMode : UInt32) {tlbId : Int}
    (hcount : c.barCount ≠ 0)
    (hwindow : 0 ≤ tlbId → (c.bars 0).phys.toNat % 4096 = 0 →
      ∀ i < tlb2mCount, (mdlOf phys length).Meets (c.bars 0) i → (i : Int) = tlbId) :
    isolation.Keeps driverMachine .ioctl (Seen c) (createUserMapping fileObject phys length cacheMode tlbId) := by
  cases fileObject with
  | none => exact Keeps.pure (stable_seen c)
  | some fo =>
    refine Triple.bind (p := mappingProcess) isolation_steady
      (seen_keeps (mappingProcess_only making_discreet.viewing)) fun process => ?_
    refine Triple.bind (p := op .allocPool) isolation_steady
      (seen_keeps ((within_perform _).mpr making_discreet.allocPool)) fun addr => ?_
    cases addr with
    | none => exact Keeps.pure (stable_seen c)
    | some addr =>
      refine Triple.bind (p := op (.referenceProcess process)) isolation_steady
        (seen_keeps ((within_perform _).mpr (making_discreet.referenceProcess _))) fun _ => ?_
      refine Triple.bind isolation_steady (mapIoToUser_isolation (cacheMode == 1) process addr) fun r => ?_
      cases r with
      | error status =>
        refine Triple.weaken (seen_keeps ?_) (fun _ hw => hw.1) fun _ _ hw => hw
        exact ⟨making_discreet.dereferenceProcess _, fun _ _ => ⟨making_discreet.freePool _, fun _ _ => trivial⟩⟩
      | ok r =>
        obtain ⟨mdl, va⟩ := r
        refine Triple.assume (fun w hw => hw.2 mdl va rfl) fun hmdl => ?_
        refine Triple.weaken (P := Seen c) (Q := fun _ => Seen c) ?_ (fun _ hw => hw.1) fun _ _ hw => hw
        subst hmdl
        refine Triple.vis_known (I := fun _ => Seen c) (stable_seen c) (fun _ _ _ _ _ _ _ => trivial) ?_ fun inserted => ?_
        · intro w L e x w' hw hl hinv hknown ha he
          have he : w.exec .ioctl (.locked (.insertMapping _)) e = some (x, w') := he
          refine and_assoc.mp ⟨exec_isolation hl hinv hknown ha ?_ he, seen_step ha.1 he hw⟩
          exact insert_separates hw hcount ha.2 rfl hwindow
        · refine Triple.ite (fun _ => ?_) fun _ => Keeps.pure (stable_seen c)
          exact seen_keeps ((destroyMapping_only making_discreet.toTeardownScope _).bind fun _ => trivial)

end Making

/-! ## The requests -/

/-- What a load shows of the BARs stays so for the rest of the request. -/
theorem load_seen {α : Type} {k : DeviceContext → Drv α} {Q : α → World → Prop}
    (hk : ∀ c, isolation.Triple driverMachine .ioctl (Seen c) (k c) Q) :
    isolation.Triple driverMachine .ioctl (fun _ => True) (load >>= k) Q := by
  refine Triple.vis_known (I := fun c => Seen c) (Stable.true _) (fun _ _ _ _ _ _ _ => trivial) ?_ hk
  intro w L e c w' _ hl hinv hknown ha he
  have he : w.exec .ioctl .load e = some (c, w') := he
  have hdiscreet : (Op.load).Discreet .ioctl := discreet_of_not_locked nofun
  refine and_assoc.mp ⟨exec_isolation hl hinv hknown ha (hdiscreet.separates ha.2 fun ht => by cases ht) he, ?_⟩
  obtain ⟨w₁, hs, rfl⟩ := World.exec_step he
  obtain ⟨rfl, rfl⟩ := Prod.mk.inj (Option.some.inj hs)
  exact ⟨rfl, rfl⟩

theorem request_isolation {α : Type} {p : Drv α} (hp : p.Only (Op.Discreet .ioctl)) :
    isolation.Keeps driverMachine .ioctl (fun _ => True) p :=
  open_keeps (fun h => by cases h) hp

theorem open_plain {α : Type} {p : Drv α} (hp : p.Only Op.plain) :
    isolation.Keeps driverMachine .ioctl (fun _ => True) p :=
  request_isolation (hp.mono fun _ => plain_discreet)

theorem mapBarAccepts_count {c : DeviceContext} {barIndex cacheMode : UInt32} {offset length : UInt64}
    (h : mapBarAccepts c barIndex cacheMode offset length = true) : c.barCount ≠ 0 := by
  have hindex := (mapBarAccepts_iff.mp h).1.1
  omega

theorem ioctlMapBar_isolation (fileObject : Option FileObject) :
    isolation.Keeps driverMachine .ioctl (fun _ => True) (ioctlMapBar fileObject) := by
  have hdone : ∀ s : NtStatus, isolation.Keeps driverMachine .ioctl (fun _ => True)
      (Pure.pure (s, 0) : Drv (NtStatus × Nat)) := fun _ => Keeps.pure (Stable.true _)
  refine Keeps.bind isolation_steady (open_plain (p := retrieveInputBuffer 24) ((within_perform _).mpr trivial)) fun _ => ?_
  refine Keeps.ite (hdone _) ?_
  refine Keeps.bind isolation_steady (open_plain (p := retrieveOutputBuffer 16) ((within_perform _).mpr trivial)) fun _ => ?_
  refine Keeps.ite (hdone _) (load_seen fun c => ?_)
  have hread : ∀ {α : Type} {p : Drv α}, p.Only Op.plain → isolation.Keeps driverMachine .ioctl (Seen c) p :=
    fun hp => seen_keeps (hp.mono fun _ => plain_discreet)
  refine Triple.bind (p := inU32 0) isolation_steady (hread ⟨trivial, fun _ _ => trivial⟩) fun barIndex => ?_
  refine Triple.bind (p := inU32 4) isolation_steady (hread ⟨trivial, fun _ _ => trivial⟩) fun cacheMode => ?_
  refine Triple.bind (p := inU64 8) isolation_steady (hread ⟨trivial, fun _ _ => trivial⟩) fun offset => ?_
  refine Triple.bind (p := inU64 16) isolation_steady (hread ⟨trivial, fun _ _ => trivial⟩) fun length => ?_
  refine Triple.ite (fun _ => Triple.pure (stable_seen c) fun _ _ => trivial) fun haccepts => ?_
  have hcount := mapBarAccepts_count (by simpa using haccepts)
  have hcreate : isolation.Keeps driverMachine .ioctl (Seen c)
      (createUserMapping fileObject ((c.bars barIndex.toNat).phys + offset) length cacheMode (-1)) :=
    createUserMapping_isolation fileObject cacheMode hcount fun h => absurd h (by decide)
  refine Triple.bind isolation_steady hcreate fun r => ?_
  refine Triple.weaken (P := fun _ => True) (open_plain ?_) (fun _ _ => trivial) fun _ _ h => h
  cases r with
  | error => trivial
  | ok va =>
    exact ⟨trivial, fun _ _ => ⟨trivial, fun _ _ => ⟨trivial, fun _ _ => ⟨trivial, fun _ _ => trivial⟩⟩⟩⟩

theorem ioctlMapTlb_isolation (fileObject : Option FileObject) :
    isolation.Keeps driverMachine .ioctl (fun _ => True) (ioctlMapTlb fileObject) := by
  have hdone : ∀ s : NtStatus, isolation.Keeps driverMachine .ioctl (fun _ => True)
      (Pure.pure (s, 0) : Drv (NtStatus × Nat)) := fun _ => Keeps.pure (Stable.true _)
  cases fileObject with
  | none => exact hdone _
  | some fo =>
    refine Keeps.bind isolation_steady (open_plain (p := retrieveInputBuffer 8) ((within_perform _).mpr trivial)) fun _ => ?_
    refine Keeps.ite (hdone _) ?_
    refine Keeps.bind isolation_steady (open_plain (p := retrieveOutputBuffer 8) ((within_perform _).mpr trivial)) fun _ => ?_
    refine Keeps.ite (hdone _) ?_
    refine Keeps.bind isolation_steady (open_plain (p := inU32 4) ⟨trivial, fun _ _ => trivial⟩) fun cacheMode => ?_
    refine Keeps.ite (hdone _) ?_
    refine Keeps.bind isolation_steady (open_plain (p := inU32 0) ⟨trivial, fun _ _ => trivial⟩) fun tlbId => ?_
    refine Keeps.bind (p := locked (.checkTlbOwner fo tlbId.toNat)) isolation_steady
      (request_isolation ⟨fun s hs => ?_, fun _ _ => trivial⟩) fun status => ?_
    · obtain rfl := Op.locked.inj hs
      trivial
    refine Keeps.ite (hdone _) (load_seen fun c => ?_)
    refine Triple.ite (fun _ => Triple.pure (stable_seen c) fun _ _ => trivial) fun hroom => ?_
    have hwindow : ∀ i < tlb2mCount, (c.bars 0).phys.toNat % 4096 = 0 →
        (mdlOf ((c.bars 0).phys + tlbId.toUInt64 * tlb2mSize) tlb2mSize).Meets (c.bars 0) i → (i : Int) = tlbId.toNat :=
      fun i hi hb hmeets => congrArg Nat.cast (mdlOf_meets hb (windowOffset_toNat tlbId) tlbId.toNat_lt hi hmeets)
    have hcreate : isolation.Keeps driverMachine .ioctl (Seen c)
        (createUserMapping (some fo) ((c.bars 0).phys + tlbId.toUInt64 * tlb2mSize) tlb2mSize cacheMode tlbId.toNat) :=
      createUserMapping_isolation (some fo) cacheMode (fun h => hroom (.inl h)) fun _ hb i hi => hwindow i hi hb
    refine Triple.bind isolation_steady hcreate fun r => ?_
    refine Triple.weaken (P := fun _ => True) (open_plain ?_) (fun _ _ => trivial) fun _ _ h => h
    cases r with
    | error => trivial
    | ok va => exact ⟨trivial, fun _ _ => ⟨trivial, fun _ _ => trivial⟩⟩

theorem arcFoot_discreet {o : Op} (h : arcFoot o) : o.Discreet .ioctl :=
  discreet_of_not_locked fun s hs => by
    subst hs
    exact h

theorem footRegions_isolation :
    FootRegions driverMachine isolation .ioctl (Op.Discreet .ioctl) (fun _ => True) fun _ => True where
  steady := isolation_steady
  plain _ := plain_discreet
  quiet _ _ := discreet_of_not_locked nofun
  unverify := discreet_of_not_locked nofun
  access _ _ := ⟨discreet_of_not_locked nofun, fun _ => discreet_of_not_locked nofun⟩
  outside hp := by
    refine request_isolation (hp.mono fun o ho => ho.elim id fun hlock => discreet_of_not_locked fun s hs => ?_)
    subst hs
    exact hlock
  held hp := request_isolation hp
  acquire := request_isolation ⟨discreet_of_not_locked (o := .acquire .arc) nofun, fun _ _ => trivial⟩
  release := request_isolation ⟨discreet_of_not_locked (o := .release .arc) nofun, fun _ _ => trivial⟩

/-- From its busy check to its fence RESET_DEVICE finds nothing listed. -/
theorem nil_keeps {α : Type} {p : Drv α} (hp : p.Only (resetFoot Section.IsFence)) :
    isolation.Keeps driverMachine .ioctl (fun w => w.ctx.mappingList = []) p := by
  refine Keeps.of_within_known (J := fun _ _ => True) stable_none_listed
    (fun _ _ _ _ _ _ _ _ _ => trivial) ?_ hp
  intro o ho w L e x w' hnil hl hinv hknown ha he
  have he : w.exec .ioctl o e = some (x, w') := he
  have hfence : ∀ s, o = .locked s → s = .fence := by
    intro s hs
    subst hs
    cases s <;> first | rfl | exact (ho : False).elim
  have hsep : o.Separates .ioctl w := by
    refine ⟨fun s hs => ?_, fun m hm => ?_, fun _ _ ht => absurd rfl ht, fun _ _ ht => by cases ht⟩
    · obtain rfl := hfence s hs
      exact hnil
    · cases hfence _ hm
  obtain ⟨hinv', hguar⟩ := exec_isolation hl hinv hknown ha hsep he
  refine ⟨hinv', hguar, List.eq_nil_iff_forall_not_mem.mpr fun m hm => ?_, trivial⟩
  rcases exec_lists ha.1 he hm with hm | hm | hm
  · rw [hnil] at hm
    cases hm
  · cases hfence _ hm
  · cases hfence _ hm

theorem ioctlResetDevice_isolation (fileObject : Option FileObject) :
    isolation.Keeps driverMachine .ioctl (fun _ => True) (ioctlResetDevice fileObject) := by
  have harm : (armReset fileObject).Only (resetFoot Section.IsFence) :=
    armReset_only (configScope_resetFoot (G := Section.IsFence)) trivial (fun _ _ => trivial) fileObject
  have harc := footRegions_isolation.arcRegions
    (request_isolation ((armLocked_within arcScope_arcFoot (fun _ _ => trivial) fun _ hf => hf).mono fun _ => arcFoot_discreet))
  have hacquire : isolation.Keeps driverMachine .ioctl (fun w => w.ctx.mappingList = []) (acquire .arc) :=
    nil_keeps ((within_perform _).mpr rfl)
  refine harc.ioctlResetDevice ?_ hacquire (Triple.weaken (nil_keeps harm) (fun _ h => h) fun _ _ _ => trivial)
  refine Triple.vis_known (I := fun busy w => if busy then True else w.ctx.mappingList = []) (Stable.true _)
    (fun _ _ _ _ _ _ _ => trivial) ?_ fun busy => ?_
  · intro w L e busy w' _ hl hinv hknown ha he
    have he : w.exec .ioctl (.locked .anyMapping) e = some (busy, w') := he
    have hdiscreet : (Op.locked .anyMapping).Discreet .ioctl := by
      intro s hs
      obtain rfl := Op.locked.inj hs
      trivial
    refine and_assoc.mp ⟨exec_isolation hl hinv hknown ha (hdiscreet.separates ha.2 fun ht => by cases ht) he, ?_⟩
    have hctx : w'.ctx = w.ctx := (World.exec_frame he).ctx
    obtain ⟨w₁, hs, rfl⟩ := World.exec_step he
    simp only [World.step, Section.run, Option.ite_none_right_eq_some, Option.some.injEq, Prod.mk.injEq] at hs
    obtain ⟨-, rfl, -⟩ := hs
    rw [hctx]
    split
    · trivial
    · rename_i hbusy
      simpa using hbusy
  · refine Triple.pure (fun w w' hr h => ?_) fun _ h => h
    cases busy with
    | true => trivial
    | false => exact hr.2.1 rfl h

theorem evtIoDeviceControl_isolation (fileObject : Option FileObject) (code : Ioctl) :
    isolation.Keeps driverMachine .ioctl (fun _ => True) (evtIoDeviceControl fileObject code) := by
  refine evtIoDeviceControl_keeps isolation_steady open_plain fileObject code ?_
  have hfoot : ∀ {α : Type} {p : Drv α}, p.Only (Op.Discreet .ioctl) →
      isolation.Keeps driverMachine .ioctl (fun _ => True) p := fun hp => request_isolation hp
  have hno : ∀ {p : Drv NtStatus}, p.Only (Op.Discreet .ioctl) → isolation.Keeps driverMachine .ioctl (fun _ => True) (noOutput p) :=
    fun hp => hfoot (hp.bind fun _ => trivial)
  have hwindow : WindowScope fileObject (Op.Discreet .ioctl) := by
    refine ⟨fun _ => plain_discreet, fun fo _ s hs => ?_, fun fo i _ s hs => ?_⟩
    all_goals
      obtain rfl := Op.locked.inj hs
      trivial
  cases code with
  | getDeviceInfo => exact open_plain (getDeviceInfo_only fun _ ho => ho)
  | mapBar => exact ioctlMapBar_isolation fileObject
  | unmapBar =>
    refine hno (ioctlUnmapBar_within (fun _ => plain_discreet) making_discreet.toTeardownScope fun fo va _ s hs => ?_)
    obtain rfl := Op.locked.inj hs
    trivial
  | allocateTlb => exact hfoot (ioctlAllocateTlb_only hwindow)
  | freeTlb => exact hno (ioctlFreeTlb_only hwindow)
  | configureTlb =>
    refine hno ((ioctlConfigureTlb_only _).mono fun o ho => discreet_of_not_locked fun s hs => ?_)
    subst hs
    exact ho
  | mapTlb => exact ioctlMapTlb_isolation fileObject
  | smcMsg => exact hfoot (ioctlSmcMsg_only.mono fun _ => arcFoot_discreet)
  | resetDevice => exact Keeps.bind isolation_steady (ioctlResetDevice_isolation fileObject) fun _ => Keeps.pure (Stable.true _)
  | arcStatus => exact hfoot (ioctlArcStatus_only.mono fun _ => arcFoot_discreet)
  | postReset =>
    refine hno (ioctlPostReset_within (fun _ => arcFoot_discreet) ((recoverReset_resetFoot (G := fun _ => False)).mono fun o ho => ?_))
    refine discreet_of_not_locked fun s hs => ?_
    subst hs
    exact (ho : False)
  | querySysmem => exact hfoot ((ioctlQuerySysmem_only (fun _ => deviceFoot_of_plain) rfl rfl).mono fun _ => arcFoot_discreet)
  | mapSysmem =>
    refine hfoot (ioctlMapSysmem_within (fun _ => plain_discreet) making_discreet (fun _ _ _ => discreet_of_not_locked nofun)
      (discreet_of_not_locked nofun) (discreet_of_not_locked nofun) fun m _ _ hm s hs => ?_)
    obtain rfl := Op.locked.inj hs
    exact ⟨rfl, hm⟩
  | sysmemStatus => exact hfoot (ioctlSysmemStatus_only.mono fun _ => arcFoot_discreet)
  | other => exact Keeps.pure (Stable.true _)

/-! ## The hardware callbacks -/

section Hardware

variable {α : Type}

theorem stable_unshown : isolation.Stable .hardware World.Unshown := fun _ _ hr h => hr.2.2 rfl h

theorem unshown_step {o : Op} {e : Choice} {x : o.Ans} {w w' : World} (ho : o.Discreet .hardware)
    (ha : Placed .hardware o w) (he : w.exec .hardware o e = some (x, w')) (h : w.Unshown) : w'.Unshown := by
  intro m hm
  rcases exec_lists ha he hm with hm | rfl | rfl
  · exact h m hm
  · cases (ho _ rfl).1
  · exact (ho _ rfl).elim

theorem unshown_keeps {p : Drv α} (hp : p.Only (Op.Discreet .hardware)) :
    isolation.Keeps driverMachine .hardware World.Unshown p :=
  discreet_keeps stable_unshown (fun _ h _ => h) unshown_step hp

theorem hardwareFoot_discreet {o : Op} (h : hardwareFoot o) : o.Discreet .hardware := by
  rintro s rfl
  obtain rfl : s = .sweepAll := h
  trivial

/-- PrepareHardware finds no view of the old BARs. -/
theorem evtDevicePrepareHardware_isolation (resources : List ResourceDesc) :
    isolation.Keeps driverMachine .hardware (fun w => w.Unshown ∧ w.started = true)
      (evtDevicePrepareHardware resources) := by
  refine discreet_keeps (fun w w' hr h => ⟨stable_unshown w w' hr h.1, (hr.1 trivial).1.trans h.2⟩) (fun _ h _ => h.1) ?_
    ((evtDevicePrepareHardware_only resources).mono fun _ ho => hardwareFoot_discreet (hardwareFoot_of_prepare ho))
  intro o e x w w' ho ha he h
  exact ⟨unshown_step ho ha he h.1, (World.exec_frame he).started.trans h.2⟩

/-- The last store of ReleaseHardware. -/
theorem forgetBars_isolation : isolation.Triple driverMachine .hardware World.Unshown
    (store fun c => { c with barCount := 0, bars := fun _ => {} }) fun _ => World.Cleared := by
  have hd : (Op.store fun c => { c with barCount := 0, bars := fun _ => {} }).Discreet .hardware :=
    discreet_of_not_locked nofun
  refine Triple.vis_known (I := fun _ w => w.ctx.barCount = 0 ∧ w.Unshown) stable_unshown
    (fun _ _ _ _ _ _ _ => trivial) ?_ fun _ => ?_
  · intro w L e x w' hw hl hinv hknown ha he
    have he : w.exec .hardware (.store fun c => { c with barCount := 0, bars := fun _ => {} }) e = some (x, w') := he
    have hcount : w'.ctx.barCount = 0 := by
      rw [(World.exec_frame he).ctx]
      rfl
    refine and_assoc.mp ⟨exec_isolation hl hinv hknown ha (hd.separates ha.2 fun _ => hw) he, hcount, ?_⟩
    exact unshown_step hd ha.1 he hw
  · refine Triple.pure (fun w w' hr h => ⟨?_, stable_unshown w w' hr h.2⟩) fun w h _ => h
    have hbars : w.SameBars w' := (hr.1 trivial).2
    exact hbars.barCount.trans h.1

/-- ReleaseHardware leaves no view and no BAR. -/
theorem evtDeviceReleaseHardware_isolation :
    isolation.Triple driverMachine .hardware (fun _ => True) evtDeviceReleaseHardware fun _ => World.Cleared := by
  have hdiscreet : ∀ {o : Op}, (∀ s, o ≠ .locked s) → o.Discreet .hardware := discreet_of_not_locked
  have hstep : ∀ {β : Type} {p : Drv β} {k : β → Drv Unit}, p.Only (Op.Discreet .hardware) →
      (∀ a, isolation.Triple driverMachine .hardware World.Unshown (k a) fun _ => World.Cleared) →
      isolation.Triple driverMachine .hardware World.Unshown (p >>= k) fun _ => World.Cleared :=
    fun hp hk => Triple.bind isolation_steady (unshown_keeps hp) hk
  have hone : ∀ {o : Op}, (∀ s, o ≠ .locked s) → (op o).Only (Op.Discreet .hardware) :=
    fun h => ⟨hdiscreet h, fun _ _ => trivial⟩
  have hstore : ∀ f, (store f).Only (Op.Discreet .hardware) := fun _ => hone nofun
  have hptr : ∀ get clear len, (releasePtr get clear len).Only (Op.Discreet .hardware) := fun get clear _ =>
    releasePtr_only (hdiscreet nofun) (fun _ _ => hdiscreet nofun) get (hdiscreet (o := .store clear) nofun) _
  have hscope : HardwareScope (Op.Discreet .hardware) := {
    silent := fun _ ho => plain_discreet ho.plain
    store := fun _ _ _ _ _ => hdiscreet nofun
    queryInterface := hdiscreet nofun
    dereferenceInterface := hdiscreet nofun
    allocContiguous := fun _ _ _ => hdiscreet nofun
    bufferZero := fun _ => hdiscreet nofun }
  have hresources : isolation.Triple driverMachine .hardware World.Unshown releaseResources
      fun _ => World.Cleared := by
    refine hstep (p := acquire .arc) (hone nofun) fun _ => ?_
    refine hstep (hptr _ _ _) fun _ => hstep (hptr _ _ _) fun _ => hstep (hptr _ _ _) fun _ => hstep (hptr _ _ _) fun _ => ?_
    refine hstep (p := store fun c => { c with sysmemVerified := false, arcRoute := .none }) (hstore _) fun _ => ?_
    refine hstep (p := release .arc) (hone nofun) fun _ => ?_
    refine hstep (sysmemFree_only hscope fun _ _ => hdiscreet nofun) fun _ => ?_
    refine hstep (p := acquire .state) (hone nofun) fun _ => hstep (hptr _ _ _) fun _ => ?_
    refine hstep (p := release .state) (hone nofun) fun _ => hstep (releaseBusInterface_only hscope.identity) fun _ => ?_
    exact forgetBars_isolation
  refine Triple.vis_known (I := fun _ => World.Unshown) (Stable.true _) (fun _ _ _ _ _ _ _ => trivial) ?_ fun ms => ?_
  · intro w L e ms w' _ hl hinv hknown ha he
    have he : w.exec .hardware (.locked .sweepAll) e = some (ms, w') := he
    have hsep : (Op.locked .sweepAll).Separates .hardware w := by
      refine ⟨fun s hs => ?_, nofun, fun s hs _ => ?_, nofun⟩
      all_goals
        obtain rfl := Op.locked.inj hs
        trivial
    refine and_assoc.mp ⟨exec_isolation hl hinv hknown ha hsep he, fun m hm => ?_⟩
    rw [(World.exec_frame he).ctx] at hm
    cases hm
  · refine Triple.bind isolation_steady (unshown_keeps ?_) fun _ => hresources
    exact destroyAll_only ⟨hdiscreet nofun, fun _ => hdiscreet nofun, fun _ => hdiscreet nofun, fun _ => hdiscreet nofun,
      fun _ => hdiscreet nofun, fun _ _ => hdiscreet nofun, fun _ => hdiscreet nofun, fun _ => hdiscreet nofun,
      fun _ => hdiscreet nofun⟩ ms

end Hardware

/-! ## The whole system -/

theorem begins_isolation {L : Tid → Prop} {t : Tid} {p : Drv Unit} {w w' : World} (h : Begins L t p w w')
    (hnl : ¬ L t) (hinv : isolation.inv L w) :
    isolation.Safe driverMachine t p (fun _ => isolation.post t) w' := by
  have hopen : ∀ {u : Tid} {q : Drv Unit}, u ≠ .hardware → isolation.Keeps driverMachine u (fun _ => True) q →
      isolation.Safe driverMachine u q (fun _ => isolation.post u) w' :=
    fun hu hq => Protocol.Safe.mono (hq w' trivial) fun _ _ _ ht => absurd ht hu
  cases h with
  | ioctl r code p => exact hopen nofun (evtIoDeviceControl_isolation r.fileObject code)
  | power cb p =>
    refine hopen nofun (open_keeps (t := .power) nofun ((power_only cb).mono fun o ho => ?_))
    exact discreet_of_not_locked fun s hs => by
      subst hs
      exact ho
  | prepare resources p _ _ hstopped =>
    have hkept : isolation.Stable .hardware fun w => w.Unshown ∧ w.started = true := fun w w' hr h =>
      ⟨stable_unshown w w' hr h.1, (hr.1 trivial).1.trans h.2⟩
    have hprepare : isolation.Keeps driverMachine .hardware (fun w => w.Unshown ∧ w.started = true)
        (evtDevicePrepareHardware resources >>= fun _ => (Pure.pure () : Drv Unit)) :=
      Keeps.bind isolation_steady (evtDevicePrepareHardware_isolation resources) fun _ => Keeps.pure hkept
    refine Protocol.Safe.mono (hprepare _ ⟨(hinv.2 hnl hstopped).2, rfl⟩) fun _ w hw _ hst => ?_
    rw [hw.2] at hst
    cases hst
  | release p => exact Protocol.Safe.mono (evtDeviceReleaseHardware_isolation _ trivial) fun _ _ hw _ => hw
  | create fo p =>
    refine hopen nofun (open_keeps (t := .create fo) nofun ((evtDeviceFileCreate_only fo).mono fun o ho => ?_))
    exact discreet_of_not_locked fun s hs => by
      subst hs
      exact ho
  | cleanup fo p =>
    refine hopen nofun (open_keeps (t := .cleanup fo) nofun ((evtFileCleanup_only fo).mono fun o ho s hs => ?_))
    subst hs
    obtain rfl : s = .sweepFile fo := ho
    trivial

theorem isolation_sound : isolation.Sound driver where
  toSteady := isolation_steady
  initial w hw := by
    obtain ⟨buffer, rfl⟩ := hw
    exact ⟨.of_bare nofun, fun _ _ => ⟨rfl, nofun⟩⟩
  compat L t t' w w' hl hl' hne hinv hknown hg := by
    obtain ⟨hstarted, hbars, hlist⟩ := hg
    have halone : t' = .ioctl ∨ t' = .power → t ≠ .hardware := by
      rintro ht' rfl
      obtain ⟨hi, hp⟩ := hknown.1.alone hl
      rcases ht' with rfl | rfl
      · exact hi hl'
      · exact hp hl'
    refine ⟨fun hd => ⟨hstarted, hbars ?_⟩, fun ht' hnil => ?_, fun ht' hbare m hm => ?_⟩
    · rintro rfl
      cases t' with
      | ioctl => exact halone (.inl rfl) rfl
      | power => exact halone (.inr rfl) rfl
      | hardware => exact hne rfl
      | _ => exact hd
    · subst ht'
      refine List.eq_nil_iff_forall_not_mem.mpr fun m hm => ?_
      have hold := hlist hne m hm
      rw [hnil] at hold
      cases hold
    · subst ht'
      refine hbare m (hlist ?_ m hm)
      rintro rfl
      exact (hknown.1.alone hl').1 hl
  begins L t p w w' hb hnl hinv hknown := by
    have hctx := begins_ctx hb
    have hstarted : t ≠ .hardware → w'.started = w.started := by
      intro ht
      cases hb <;> first | rfl | exact absurd rfl ht
    refine ⟨⟨by rw [hctx]; exact hinv.1, fun hn hst => ?_⟩, fun t' ht' => ?_, begins_isolation hb hnl hinv⟩
    · have ht : t ≠ .hardware := fun ht => hn (.inl ht.symm)
      have hcleared := hinv.2 (fun hl => hn (.inr hl)) ((hstarted ht).symm.trans hst)
      rw [World.Unshown, hctx]
      exact hcleared
    · refine ⟨fun hd => ⟨?_, by rw [hctx], by rw [hctx]⟩, fun _ h => hctx ▸ h, fun _ h => ?_⟩
      · have hne : t' ≠ t := fun heq => hnl (heq ▸ ht')
        exact (begins_undisturbed hb hnl ht' hd).started
      · rw [World.Unshown, hctx]
        exact h
  ends L t w w' he hl hinv _ hpost := by
    obtain rfl : w' = w.leave t := he
    have hctx := w.leave_ctx t
    have hstarted : (w.leave t).started = w.started := by cases t <;> rfl
    refine ⟨⟨by rw [hctx]; exact hinv.1, fun hn hst => ?_⟩, fun t' _ => ?_⟩
    · rw [World.Unshown, hctx]
      rw [hstarted] at hst
      by_cases ht : t = .hardware
      · exact hpost ht hst
      · exact hinv.2 (fun hh => hn ⟨fun heq => ht heq.symm, hh⟩) hst
    · refine ⟨fun _ => ⟨hstarted, by rw [hctx], by rw [hctx]⟩, fun _ h => hctx ▸ h, fun _ h => ?_⟩
      rw [World.Unshown, hctx]
      exact h
  env L w w' he hinv _ := by
    have hctx := environment_ctx he
    have hstarted : w'.started = w.started := by cases he <;> rfl
    refine ⟨⟨by rw [hctx]; exact hinv.1, fun hn hst => ?_⟩, fun t' _ => ?_⟩
    · rw [World.Unshown, hctx]
      exact hinv.2 hn (hstarted ▸ hst)
    · refine ⟨fun _ => ⟨hstarted, by rw [hctx], by rw [hctx]⟩, fun _ h => hctx ▸ h, fun _ h => ?_⟩
      rw [World.Unshown, hctx]
      exact h

/-- In every run in which MAP_BAR and FREE_TLB keep off, the windows that a listed mapping shows
are user windows that its handle owns. -/
theorem reach_isolated {c : DriverConfig} (h : Reach driver keepsApart c) : c.world.ctx.Isolated := by
  have hreach : Reach driver isolation.allow c := h.restrict fun _ _ _ _ hr hp ha =>
    ⟨(mmio_sound.about hr.any hp trivial).2, ha⟩
  have hgood := isolation_sound.good hreach fun _ hr => ⟨reach_mmioInv hr.any, reach_allocatorInv hr.any⟩
  exact hgood.inv.1.owned

end TtWind
