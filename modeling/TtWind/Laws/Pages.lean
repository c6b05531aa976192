import TtWind.Laws.Programs

/-!
# The pages of a mapping

What the parameter checks of MAP_BAR accept, in unbounded arithmetic, and what the MDL of an
accepted MAP_BAR or MAP_TLB lists: the pages of the range asked for, in order, all of them in
the BAR.
-/

set_option autoImplicit false

namespace TtWind

open TtWind.Effect TtWind.Effect.Prog

theorem page_aligned_iff {a : UInt64} : a &&& (pageSize - 1) = 0 ↔ a.toNat % 4096 = 0 := by
  have hmask : (pageSize - 1).toNat = 2 ^ 12 - 1 := rfl
  rw [← UInt64.toNat_inj, UInt64.toNat_and, hmask, Nat.and_two_pow_sub_one_eq_mod]
  rfl

/-- The parameter checks of MAP_BAR, without overflow in sight. -/
theorem mapBarAccepts_iff {c : DeviceContext} {barIndex cacheMode : UInt32} {offset length : UInt64} :
    mapBarAccepts c barIndex cacheMode offset length = true ↔
      (barIndex.toNat < c.barCount ∧ barIndex.toNat < maxBars) ∧ (cacheMode = 0 ∨ cacheMode = 1) ∧
      offset.toNat % 4096 = 0 ∧ length.toNat % 4096 = 0 ∧
      0 < length.toNat ∧ length.toNat ≤ 8 * 1024 * 1024 ∧
      offset.toNat + length.toNat ≤ (c.bars barIndex.toNat).size.toNat := by
  have hzero : length = 0 ↔ length.toNat = 0 := UInt64.toNat_inj.symm
  have hmax : maxMapBytes.toNat = 8 * 1024 * 1024 := rfl
  have hmode : ¬ (cacheMode ≠ 0 ∧ cacheMode ≠ 1) ↔ cacheMode = 0 ∨ cacheMode = 1 := by
    rw [not_and_or, not_not, not_not]
  have hroom : ∀ {size : UInt64}, ¬ (size < length ∨ size - length < offset) ↔
      offset.toNat + length.toNat ≤ size.toNat := by
    intro size
    rw [UInt64.lt_iff_toNat_lt, UInt64.lt_iff_toNat_lt]
    by_cases hle : length.toNat ≤ size.toNat
    · rw [UInt64.toNat_sub_of_le _ _ (UInt64.le_iff_toNat_le.mpr hle)]
      omega
    · omega
  simp only [mapBarAccepts, Bool.if_false_left, Bool.if_true_right, Bool.and_eq_true, Bool.or_eq_true,
    Bool.not_eq_true', Bool.or_false, decide_eq_true_eq, bne_iff_ne, decide_eq_false_iff_not, beq_iff_eq,
    ← hmode, ← hroom, ← page_aligned_iff, hzero, UInt64.lt_iff_toNat_lt (a := maxMapBytes), hmax]
  simp only [not_or, ne_eq, not_not, Nat.not_le, Nat.not_lt, Nat.pos_iff_ne_zero, and_assoc]

/-! ## The pages -/

/-- The MDL lists the pages of the range of the BAR, in order, and each lies in the BAR. -/
structure Mdl.Lists (m : Mdl) (b : Bar) (offset length : UInt64) : Prop where
  pages : m.pfns.map UInt64.toNat =
    List.range' ((b.phys.toNat + offset.toNat) / 4096) (length.toNat / 4096)
  exact : (b.phys.toNat + offset.toNat) % 4096 = 0 ∧ length.toNat % 4096 = 0
  inside : ∀ pfn ∈ m.pfns, b.phys.toNat ≤ pfn.toNat * 4096 ∧
    pfn.toNat * 4096 + 4096 ≤ b.phys.toNat + b.size.toNat
  byteCount : m.byteCount.toNat = length.toNat

/-- A BAR as the bus gives it: page aligned, below the top half of the address space. -/
def Bar.Placed (b : Bar) : Prop := b.phys.toNat % 4096 = 0 ∧ b.phys.toNat + b.size.toNat ≤ 2 ^ 63

/-- A shift as a signed number is the plain one below the top half. -/
theorem signedShift_toNat {a : UInt64} (h : a.toNat < 2 ^ 63) :
    (a.toInt64 >>> 12).toUInt64.toNat = a.toNat / 4096 := by
  have hmsb : a.toBitVec.msb = false := by
    rw [BitVec.msb_eq_false_iff_two_mul_lt]
    show 2 * a.toNat < 2 ^ 64
    omega
  have hbits : (a.toInt64 >>> 12).toBitVec = a.toBitVec.sshiftRight 12 := rfl
  have hnat : (a.toInt64 >>> 12).toBitVec.toNat = a.toNat / 4096 := by
    rw [hbits, BitVec.sshiftRight_eq_of_msb_false hmsb, BitVec.toNat_ushiftRight,
      Nat.shiftRight_eq_div_pow]
    rfl
  exact hnat

theorem pfnArray_toNat {base : UInt64} {count : Nat} (h : base.toNat + count ≤ 2 ^ 64) :
    (pfnArray base count).map UInt64.toNat = List.range' base.toNat count := by
  have hpage : ∀ i ∈ List.range count, (base + UInt64.ofNat i).toNat = base.toNat + i := by
    intro i hi
    have hlt := List.mem_range.mp hi
    have hi' : (UInt64.ofNat i).toNat = i := UInt64.toNat_ofNat_of_lt (by show i < 2 ^ 64; omega)
    rw [UInt64.toNat_add, hi']
    omega
  rw [pfnArray, List.map_map, List.range'_eq_map_range]
  exact List.map_congr_left hpage

/-- The MDL of an aligned range within the BAR. -/
theorem mdlOf_lists {b : Bar} {offset length : UInt64} (hb : b.Placed)
    (ho : offset.toNat % 4096 = 0) (hl : length.toNat % 4096 = 0) (hlen : length.toNat < 2 ^ 32)
    (hpos : 0 < length.toNat) (hfit : offset.toNat + length.toNat ≤ b.size.toNat) :
    (mdlOf (b.phys + offset) length).Lists b offset length := by
  obtain ⟨hphys, htop⟩ := hb
  have hstart : (b.phys + offset).toNat = b.phys.toNat + offset.toNat := by
    rw [UInt64.toNat_add]
    omega
  have hbase : ((b.phys + offset).toInt64 >>> 12).toUInt64.toNat = (b.phys.toNat + offset.toNat) / 4096 := by
    rw [signedShift_toNat (by omega), hstart]
  have hcount : (length >>> 12).toUInt32.toNat = length.toNat / 4096 := by
    have hshift : (12 : UInt64).toNat % 64 = 12 := rfl
    rw [UInt64.toNat_toUInt32, UInt64.toNat_shiftRight, hshift, Nat.shiftRight_eq_div_pow]
    omega
  have hpages : (mdlOf (b.phys + offset) length).pfns.map UInt64.toNat =
      List.range' ((b.phys.toNat + offset.toNat) / 4096) (length.toNat / 4096) := by
    rw [mdlOf, pfnArray_toNat, hbase, hcount]
    rw [hbase, hcount]
    omega
  refine ⟨hpages, by omega, ?_, ?_⟩
  · intro pfn hpfn
    have hmem : pfn.toNat ∈ List.range' ((b.phys.toNat + offset.toNat) / 4096) (length.toNat / 4096) := by
      rw [← hpages]
      exact List.mem_map_of_mem hpfn
    rw [List.mem_range'_1] at hmem
    omega
  · rw [mdlOf, UInt64.toNat_toUInt32]
    omega

/-! ## The two requests -/

/-- The MDL was built for an accepted MAP_BAR request, whose fields and BAR table were read. -/
def BuiltForBar (mdl : Mdl) (evs : List Event) : Prop :=
  ∃ c barIndex cacheMode offset length, (⟨.load, c⟩ : Event) ∈ evs ∧ Read32 evs 0 barIndex ∧
    Read32 evs 4 cacheMode ∧ Read64 evs 8 offset ∧ Read64 evs 16 length ∧
    mapBarAccepts c barIndex cacheMode offset length = true ∧
    ((c.bars barIndex.toNat).Placed → mdl.Lists (c.bars barIndex.toNat) offset length)

/-- The MDL was built for an accepted MAP_TLB request: it is the window's 2 MiB of BAR 0. -/
def BuiltForTlb (mdl : Mdl) (evs : List Event) : Prop :=
  ∃ c tlbId offset, (⟨.load, c⟩ : Event) ∈ evs ∧ Read32 evs 0 tlbId ∧
    offset.toNat = tlbId.toNat * (2 * 1024 * 1024) ∧
    ((c.bars 0).Placed → mdl.Lists (c.bars 0) offset tlb2mSize)

/-- The operation maps no device memory but what was built by `Built`. -/
def MapsBuilt (Built : Mdl → List Event → Prop) (evs : List Event) (o : Op) : Prop :=
  ∀ mdl wc addr, o = .mapLockedPages mdl wc addr → Built mdl evs

/-- The operation maps no device memory but by this MDL. -/
def MapsOnly (mdl : Mdl) (o : Op) : Prop := ∀ mdl' wc addr, o = .mapLockedPages mdl' wc addr → mdl' = mdl

theorem makingScope_mapsOnly (mdl : Mdl) : MakingScope (MapsOnly mdl) where
  currentProcess := nofun
  exitPending _ := nofun
  attach _ := nofun
  detach _ := nofun
  unmapView _ := nofun
  unmapLockedPages _ _ := nofun
  freeMdl _ := nofun
  dereferenceProcess _ := nofun
  freePool _ := nofun
  silent o ho := by rintro mdl' wc addr rfl; exact (ho : False).elim
  allocPool := nofun
  referenceProcess _ := nofun

theorem createUserMapping_mapsOnly (fileObject : Option FileObject) (phys length : UInt64)
    (cacheMode : UInt32) (tlbId : Int) :
    (createUserMapping fileObject phys length cacheMode tlbId).Only (MapsOnly (mdlOf phys length)) := by
  refine createUserMapping_within (makingScope_mapsOnly _) ?_ ?_ cacheMode
  · intro wc a mdl' wc' addr heq
    cases heq
    rfl
  · exact fun _ _ _ _ => nofun

theorem ioctlMapBar_builds (fileObject : Option FileObject) :
    (ioctlMapBar fileObject).Traced (MapsBuilt BuiltForBar) (fun _ _ => True) [] := by
  refine ⟨nofun, fun _ => Traced.ite (fun _ => trivial) fun _ => ?_⟩
  refine ⟨nofun, fun _ => Traced.ite (fun _ => trivial) fun _ => ?_⟩
  refine ⟨nofun, fun c => ⟨nofun, fun index => ⟨nofun, fun mode => ⟨nofun, fun offset =>
    ⟨nofun, fun length => ?_⟩⟩⟩⟩⟩
  refine Traced.ite (fun _ => trivial) fun haccepted => ?_
  have hcreate := createUserMapping_mapsOnly fileObject
    ((c.bars (UInt32.ofNat index).toNat).phys + UInt64.ofNat offset) (UInt64.ofNat length)
    (UInt32.ofNat mode) (-1)
  have haccepted : mapBarAccepts c (UInt32.ofNat index) (UInt32.ofNat mode) (UInt64.ofNat offset)
      (UInt64.ofNat length) = true := by simpa using haccepted
  obtain ⟨-, -, ho, hl, hpos, hmax, hfit⟩ := mapBarAccepts_iff.mp haccepted
  refine Traced.bind (hcreate.traced_after fun evs' hsuffix o ho' mdl wc addr hmap => ?_) ?_
  · obtain rfl := ho' mdl wc addr hmap
    refine ⟨c, UInt32.ofNat index, UInt32.ofNat mode, UInt64.ofNat offset, UInt64.ofNat length,
      hsuffix.mem (by simp), ⟨index, hsuffix.mem (by simp), rfl⟩, ⟨mode, hsuffix.mem (by simp), rfl⟩,
      ⟨offset, hsuffix.mem (by simp), rfl⟩, ⟨length, hsuffix.mem (by simp), rfl⟩, haccepted, fun hb => ?_⟩
    exact mdlOf_lists hb ho hl (by omega) hpos hfit
  · intro r evs' _
    cases r with
    | error => trivial
    | ok va => exact ⟨nofun, fun _ => ⟨nofun, fun _ => ⟨nofun, fun _ => ⟨nofun, fun _ => trivial⟩⟩⟩⟩

theorem windowOffset_toNat (tlbId : UInt32) :
    (tlbId.toUInt64 * tlb2mSize).toNat = tlbId.toNat * (2 * 1024 * 1024) := by
  have hid := tlbId.toNat_lt
  have hsize : tlb2mSize.toNat = 2 * 1024 * 1024 := rfl
  rw [UInt64.toNat_mul, UInt32.toNat_toUInt64, hsize]
  omega

theorem ioctlMapTlb_builds (fileObject : Option FileObject) :
    (ioctlMapTlb fileObject).Traced (MapsBuilt BuiltForTlb) (fun _ _ => True) [] := by
  cases fileObject with
  | none => trivial
  | some fo =>
    refine ⟨nofun, fun _ => Traced.ite (fun _ => trivial) fun _ => ?_⟩
    refine ⟨nofun, fun _ => Traced.ite (fun _ => trivial) fun _ => ⟨nofun, fun mode => ?_⟩⟩
    refine Traced.ite (fun _ => trivial) fun _ => ⟨nofun, fun id => ⟨nofun, fun status => ?_⟩⟩
    refine Traced.ite (fun _ => trivial) fun _ => ⟨nofun, fun c => ?_⟩
    refine Traced.ite (fun _ => trivial) fun hroom => ?_
    have hoffset := windowOffset_toNat (UInt32.ofNat id)
    have hid := (UInt32.ofNat id).toNat_lt
    have hsize : tlb2mSize.toNat = 2 * 1024 * 1024 := rfl
    have hend : ((UInt32.ofNat id).toUInt64 * tlb2mSize + tlb2mSize).toNat =
        (UInt32.ofNat id).toNat * (2 * 1024 * 1024) + 2 * 1024 * 1024 := by
      rw [UInt64.toNat_add, hoffset, hsize]
      omega
    have hcreate := createUserMapping_mapsOnly (some fo)
      ((c.bars 0).phys + (UInt32.ofNat id).toUInt64 * tlb2mSize) tlb2mSize (UInt32.ofNat mode)
      (UInt32.ofNat id).toNat
    refine Traced.bind (hcreate.traced_after fun evs' hsuffix o ho' mdl wc addr hmap => ?_) ?_
    · obtain rfl := ho' mdl wc addr hmap
      refine ⟨c, UInt32.ofNat id, _, hsuffix.mem (by simp), ⟨id, hsuffix.mem (by simp), rfl⟩, hoffset,
        fun hb => ?_⟩
      have hfit : ¬ (c.bars 0).size < (UInt32.ofNat id).toUInt64 * tlb2mSize + tlb2mSize :=
        fun hlt => hroom (.inr hlt)
      rw [UInt64.lt_iff_toNat_lt, hend] at hfit
      apply mdlOf_lists hb <;> omega
    · intro r evs' _
      cases r with
      | error => trivial
      | ok va => exact ⟨nofun, fun _ => ⟨nofun, fun _ => trivial⟩⟩

/-- BAR and window mappings stay inside their BAR. The checks of MAP_BAR pass exactly for a
recorded BAR, a valid cache mode, page aligned values, at most 8 MiB, and a range within the BAR
in unbounded arithmetic; and whenever device memory is mapped by a MAP_BAR or MAP_TLB request, its
MDL lists the pages of the range that was asked for, in order, all of them in the BAR. -/
theorem mapped_pages_inside_bar :
    (∀ (c : DeviceContext) (barIndex cacheMode : UInt32) (offset length : UInt64),
      mapBarAccepts c barIndex cacheMode offset length = true ↔
        (barIndex.toNat < c.barCount ∧ barIndex.toNat < maxBars) ∧ (cacheMode = 0 ∨ cacheMode = 1) ∧
        offset.toNat % 4096 = 0 ∧ length.toNat % 4096 = 0 ∧
        0 < length.toNat ∧ length.toNat ≤ 8 * 1024 * 1024 ∧
        offset.toNat + length.toNat ≤ (c.bars barIndex.toNat).size.toNat) ∧
    (∀ (fileObject : Option FileObject) (evs : List Event) (q : Drv (NtStatus × Nat)),
      (ioctlMapBar fileObject).Leads evs q →
        ∀ mdl wc addr x, (⟨.mapLockedPages mdl wc addr, x⟩ : Event) ∈ evs → BuiltForBar mdl evs) ∧
    ∀ (fileObject : Option FileObject) (evs : List Event) (q : Drv (NtStatus × Nat)),
      (ioctlMapTlb fileObject).Leads evs q →
        ∀ mdl wc addr x, (⟨.mapLockedPages mdl wc addr, x⟩ : Event) ∈ evs → BuiltForTlb mdl evs := by
  refine ⟨fun _ _ _ _ _ => mapBarAccepts_iff, fun fo evs q h mdl wc addr x hmem => ?_,
    fun fo evs q h mdl wc addr x hmem => ?_⟩
  · obtain ⟨before, hsuffix, hbuilt⟩ := h.traced_events (ioctlMapBar_builds fo) _ hmem
    obtain ⟨c, index, mode, offset, length, hc, ⟨n₁, h₁, e₁⟩, ⟨n₂, h₂, e₂⟩, ⟨n₃, h₃, e₃⟩, ⟨n₄, h₄, e₄⟩,
      hrest⟩ := hbuilt mdl wc addr rfl
    exact ⟨c, index, mode, offset, length, hsuffix.mem hc, ⟨n₁, hsuffix.mem h₁, e₁⟩,
      ⟨n₂, hsuffix.mem h₂, e₂⟩, ⟨n₃, hsuffix.mem h₃, e₃⟩, ⟨n₄, hsuffix.mem h₄, e₄⟩, hrest⟩
  · obtain ⟨before, hsuffix, hbuilt⟩ := h.traced_events (ioctlMapTlb_builds fo) _ hmem
    obtain ⟨c, id, offset, hc, ⟨n, hn, hid⟩, hrest⟩ := hbuilt mdl wc addr rfl
    exact ⟨c, id, offset, hsuffix.mem hc, ⟨n, hsuffix.mem hn, hid⟩, hrest⟩

/-- BAR 0 has 512 MiB. -/
def barAt : DeviceContext := { barCount := 1, bars := fun _ => { phys := 0x4000000000, size := 0x20000000 } }

/-- MAP_BAR by handle 1 of the second page of BAR 0, in process 1, latest first. -/
def mapsSecondPage : List Event :=
  [⟨.outField 8 8 0x1000, ()⟩, ⟨.inField 16 8, (0x1000 : Nat)⟩, ⟨.outField 0 8 0x20000, ()⟩, ⟨.outZero 16, ()⟩,
    ⟨.locked (.insertMapping ⟨0x100, 1, 1, .mdl, some (mdlOf 0x4000001000 0x1000), 0, 0x20000, 0x1000, -1⟩), true⟩,
    ⟨.mapLockedPages (mdlOf 0x4000001000 0x1000) false 0x100, .ok 0x20000⟩, ⟨.currentProcess, (1 : Nat)⟩,
    ⟨.allocMdl 0x4000001000 0x1000, true⟩, ⟨.referenceProcess 1, ()⟩, ⟨.allocPool, some 0x100⟩,
    ⟨.requestorProcess, some 1⟩, ⟨.inField 16 8, (0x1000 : Nat)⟩, ⟨.inField 8 8, (0x1000 : Nat)⟩,
    ⟨.inField 4 4, (0 : Nat)⟩, ⟨.inField 0 4, (0 : Nat)⟩, ⟨.load, barAt⟩, ⟨.outputBuffer 16, NtStatus.success⟩,
    ⟨.inputBuffer 24, NtStatus.success⟩]

theorem mapped_pages_inside_bar_second_page :
    (ioctlMapBar (some 1)).Leads mapsSecondPage (.pure (.success, 16)) ∧
      BuiltForBar (mdlOf 0x4000001000 0x1000) mapsSecondPage := by
  have h₀ : (ioctlMapBar (some 1)).Leads [] (ioctlMapBar (some 1)) := .start
  have h₁ := ((h₀.next NtStatus.success).next NtStatus.success).next barAt
  have h₂ := (((h₁.next (0 : Nat)).next (0 : Nat)).next (0x1000 : Nat)).next (0x1000 : Nat)
  have h₃ := ((h₂.next (some 1)).next (some 0x100)).next ()
  have h₄ := (((h₃.next true).next (1 : Nat)).next (.ok 0x20000)).next true
  have h₅ := ((h₄.next ()).next ()).next (0x1000 : Nat)
  have hleads : (ioctlMapBar (some 1)).Leads mapsSecondPage (.pure (.success, 16)) := h₅.next ()
  refine ⟨hleads, mapped_pages_inside_bar.2.1 (some 1) _ _ hleads _ false 0x100 (.ok 0x20000) ?_⟩
  exact .tail _ (.tail _ (.tail _ (.tail _ (.tail _ (.head _)))))

end TtWind
