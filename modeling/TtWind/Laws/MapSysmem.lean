import TtWind.Driver.Schedule
import TtWind.Laws.Solo

/-!
# The view MAP_SYSMEM makes

The bounds check is relative to the buffer; the view starts at the 64 KiB
boundary below the first requested byte. So the returned address shows the
requested bytes, and the view stays inside the buffer exactly when that boundary
is not below the buffer's start.
-/

set_option autoImplicit false

namespace TtWind

open TtWind.Effect

/-- The physical address of the byte `i` above a user address of the view. -/
def View.byteAt (v : View) (va : UInt64) (i : Nat) : Option Nat :=
  let k := (va - v.va).toNat + i
  match v.span with
  | .range phys size => if k < size.toNat then some (phys.toNat + k) else none
  | .pages pfns => pfns[k / 4096]?.map fun pfn => pfn.toNat * 4096 + k % 4096

/-- A view for the request `[offset, offset + length)` of the buffer: it shows bytes of
the buffer only, and the requested ones from `va` on. -/
structure View.ShowsBuffer (v : View) (c : DeviceContext) (offset length va : UInt64) : Prop where
  inside : ∀ i a, v.byteAt v.va i = some a →
    c.sysmemPhys.toNat ≤ a ∧ a < c.sysmemPhys.toNat + c.sysmemSize.toNat
  addressed : ∀ i, i < length.toNat →
    v.byteAt va i = some (c.sysmemPhys.toNat + offset.toNat + i)

/-- The 64 KiB boundary a view of this physical address starts at. -/
def viewStart (phys : UInt64) : UInt64 := phys &&& ~~~(viewAlign - 1)

theorem viewStart_le (phys : UInt64) : (viewStart phys).toNat ≤ phys.toNat := by
  rw [viewStart, UInt64.toNat_and]
  exact Nat.and_le_left

/-- What the bounds check of MAP_SYSMEM establishes. -/
theorem mapSysmemInBounds_iff {c : DeviceContext} {offset length : UInt64} :
    mapSysmemInBounds c offset length = true ↔
      offset.toNat + length.toNat ≤ c.sysmemSize.toNat := by
  simp only [mapSysmemInBounds, Bool.not_eq_true', Bool.or_eq_false_iff, decide_eq_false_iff_not,
    UInt64.not_lt, UInt64.le_iff_toNat_le]
  constructor
  · rintro ⟨hlen, hoff⟩
    rw [UInt64.toNat_sub_of_le _ _ (UInt64.le_iff_toNat_le.mpr hlen)] at hoff
    omega
  · intro h
    have hlen : length.toNat ≤ c.sysmemSize.toNat := by omega
    rw [UInt64.toNat_sub_of_le _ _ (UInt64.le_iff_toNat_le.mpr hlen)]
    omega

/-- What the alignment check leaves is a page at least. -/
theorem mapSysmemAligned_page {offset length : UInt64} (h : mapSysmemAligned offset length = true) :
    4096 ≤ length.toNat := by
  simp only [mapSysmemAligned, Bool.not_eq_true', Bool.or_eq_false_iff, beq_eq_false_iff_ne,
    bne_eq_false_iff_eq] at h
  obtain ⟨⟨-, hmask⟩, hne⟩ := h
  have hpage : (pageSize - 1).toNat = 2 ^ 12 - 1 := rfl
  have hmod : length.toNat % 2 ^ 12 = 0 := by
    have hand := congrArg UInt64.toNat hmask
    rwa [UInt64.toNat_and, hpage, Nat.and_two_pow_sub_one_eq_mod] at hand
  have hpos : length.toNat ≠ 0 := fun h0 => hne (UInt64.toNat_inj.mp h0)
  omega

theorem mapSysmemAligned_pos {offset length : UInt64} (h : mapSysmemAligned offset length = true) :
    0 < length.toNat := Nat.lt_of_lt_of_le (by decide) (mapSysmemAligned_page h)

/-- A view widened down to `start` shows the requested bytes at the address answered, if its
size does not wrap. -/
theorem byteAt_of_widened {phys length base start : UInt64} {addr : Nat} {process : Process} {i : Nat}
    (hle : start.toNat ≤ phys.toNat) (hnowrap : length.toNat + (phys - start).toNat < 2 ^ 64)
    (hi : i < length.toNat) :
    View.byteAt ⟨addr, process, base, .range start (length + (phys - start))⟩ (base + (phys - start)) i =
      some (phys.toNat + i) := by
  have hdelta : (phys - start).toNat = phys.toNat - start.toNat :=
    UInt64.toNat_sub_of_le _ _ (UInt64.le_iff_toNat_le.mpr hle)
  have hsize : (length + (phys - start)).toNat = (length.toNat + (phys - start).toNat) % 2 ^ 64 :=
    UInt64.toNat_add _ _
  have hback : base + (phys - start) - base = phys - start := by
    rw [UInt64.add_comm, UInt64.add_sub_cancel]
  simp only [View.byteAt, hback, Option.ite_none_right_eq_some, Option.some.injEq, hsize]
  omega

/-- The widened view shows the request exactly when it starts inside the buffer, and its
size does not wrap. -/
theorem showsBuffer_iff {c : DeviceContext} {offset length phys : UInt64} {addr : Nat}
    {process : Process} {base : UInt64} (hphys : phys = c.sysmemPhys + offset)
    (hbounds : offset.toNat + length.toNat ≤ c.sysmemSize.toNat) (hpos : 0 < length.toNat) :
    View.ShowsBuffer ⟨addr, process, base,
        .range (viewStart phys) (length + (phys - viewStart phys))⟩ c offset length
        (base + (phys - viewStart phys)) ↔
      c.sysmemPhys ≤ viewStart phys ∧
        length.toNat + (phys - viewStart phys).toNat < 2 ^ 64 := by
  have hle := viewStart_le phys
  have hdelta : (phys - viewStart phys).toNat = phys.toNat - (viewStart phys).toNat :=
    UInt64.toNat_sub_of_le _ _ (UInt64.le_iff_toNat_le.mpr hle)
  have hsum : phys.toNat = (c.sysmemPhys.toNat + offset.toNat) % 2 ^ 64 := by
    rw [hphys, UInt64.toNat_add]
  have hsize : (length + (phys - viewStart phys)).toNat =
      (length.toNat + (phys - viewStart phys).toNat) % 2 ^ 64 := UInt64.toNat_add _ _
  have hback : base + (phys - viewStart phys) - base = phys - viewStart phys := by
    rw [UInt64.add_comm, UInt64.add_sub_cancel]
  have hlt := offset.toNat_lt
  rw [UInt64.le_iff_toNat_le]
  generalize viewStart phys = start at *
  constructor
  · rintro ⟨hinside, haddressed⟩
    -- the last requested byte is in the view, so the size did not wrap
    have hlast := haddressed (length.toNat - 1) (by omega)
    simp only [View.byteAt, hback, Option.ite_none_right_eq_some, hsize] at hlast
    -- so the view has a first byte
    have hfirst : View.byteAt ⟨addr, process, base, .range start (length + (phys - start))⟩ base 0 =
        some start.toNat := by
      simp only [View.byteAt, UInt64.sub_self, Option.ite_none_right_eq_some, hsize]
      exact ⟨by simp; omega, by simp⟩
    have hstart := (hinside 0 _ hfirst).1
    exact ⟨hstart, by omega⟩
  · rintro ⟨hstart, hnowrap⟩
    -- the address did not wrap either: it would lie below the buffer
    have hexact : phys.toNat = c.sysmemPhys.toNat + offset.toNat := by omega
    refine ⟨fun i a hi => ?_, fun i hi => ?_⟩
    · simp only [View.byteAt, UInt64.sub_self, Option.ite_none_right_eq_some, Option.some.injEq,
        hsize] at hi
      simp only [UInt64.toNat_zero, Nat.zero_add] at hi
      omega
    · rw [byteAt_of_widened hle hnowrap hi, hexact]

/-! ## The code -/

theorem except_ne {s : NtStatus} (h : ¬ s.ok = true) : s ≠ .success := by
  rintro rfl
  exact h rfl

theorem attachTo_quiet (process : Process) : (attachTo process).Only Op.quiet := by
  refine ⟨⟨fun _ => rfl, id, id⟩, fun current _ => ?_⟩
  simp only [Prog.bind]
  split
  · exact ⟨⟨fun _ => rfl, id, id⟩, fun _ _ => trivial⟩
  · trivial

/-- Attaching moves the thread into the process. -/
theorem solo_attachTo {t : Tid} {process : Process} {w w' : World} {saved : Option Process}
    (h : Solo driverMachine t (attachTo process) w saved w') : w'.curProc t = process := by
  unfold attachTo at h
  obtain ⟨e, p, w₁, hs, h⟩ := Solo.op_bind.mp h
  simp only [World.step, Option.some.injEq, Prod.mk.injEq] at hs
  obtain ⟨rfl, rfl⟩ := hs
  split at h
  · obtain ⟨e, q, w₂, hs, h⟩ := Solo.op_bind.mp h
    simp only [World.step, Option.some.injEq, Prod.mk.injEq] at hs
    obtain ⟨rfl, rfl⟩ := hs
    obtain ⟨-, rfl⟩ := Effect.Solo.pure_iff.mp h
    exact Function.update_self _ _ _
  · rename_i hsame
    obtain ⟨-, rfl⟩ := Effect.Solo.pure_iff.mp h
    exact (not_not.mp hsame).symm

theorem detachFrom_quiet (saved : Option Process) : (detachFrom saved).Only Op.quiet := by
  cases saved with
  | none => trivial
  | some p => exact ⟨⟨fun _ => rfl, id, id⟩, fun _ _ => trivial⟩

theorem mappingProcess_quiet : mappingProcess.Only Op.quiet := by
  refine ⟨⟨fun _ => rfl, id, id⟩, fun p _ => ?_⟩
  cases p with
  | none => exact ⟨⟨fun _ => rfl, id, id⟩, fun _ _ => trivial⟩
  | some p => trivial

/-- Mapping a view fails with an error, or adds the view. -/
theorem exec_mapView {t : Tid} {phys size : UInt64} {addr : Nat} {e : Choice} {w w' : World}
    {r : Except NtStatus UInt64} (h : w.exec t (.mapView phys size addr) e = some (r, w')) :
    match r with
    | .error s => s ≠ .success
    | .ok base => w'.views = ⟨addr, w.curProc t, base, .range phys size⟩ :: w.views := by
  obtain ⟨w₁, hs, rfl⟩ := World.exec_step h
  cases e with
  | address a =>
    simp only [World.step, World.addView, Option.ite_none_right_eq_some, Option.some.injEq,
      Prod.mk.injEq] at hs
    obtain ⟨-, rfl, rfl⟩ := hs
    rfl
  | fail s =>
    simp only [World.step, Option.ite_none_left_eq_some, Option.some.injEq, Prod.mk.injEq] at hs
    obtain ⟨hbad, rfl, -⟩ := hs
    exact except_ne hbad
  | _ => cases hs

/-- A successful `mapSysmemToUser` added one view, in the process asked for. -/
theorem solo_mapSysmemToUser {t : Tid} {phys length : UInt64} {process : Process} {addr : Nat}
    {w w' : World} {r : Except NtStatus (UInt64 × UInt64)}
    (h : Solo driverMachine t (mapSysmemToUser phys length process addr) w r w') :
    w'.ctx = w.ctx ∧ w'.req = w.req ∧
      match r with
      | .error s => s ≠ .success
      | .ok (base, va) => va = base + (phys - viewStart phys) ∧
          w'.views = ⟨addr, process, base,
            .range (viewStart phys) (length + (phys - viewStart phys))⟩ :: w.views := by
  unfold mapSysmemToUser at h
  obtain ⟨s, w₁, hopen, h⟩ := Effect.Solo.bind_iff.mp h
  have hquiet₁ : w.Quiet w₁ :=
    solo_op_quiet ⟨fun _ => rfl, id, id⟩ hopen
  split at h
  · rename_i hbad
    obtain ⟨rfl, rfl⟩ := Effect.Solo.pure_iff.mp h
    exact ⟨hquiet₁.1, hquiet₁.2.1, except_ne (by simpa using hbad)⟩
  obtain ⟨saved, w₂, hattach, h⟩ := Effect.Solo.bind_iff.mp h
  have hquiet₂ : w.Quiet w₂ := hquiet₁.trans (solo_quiet (attachTo_quiet process) hattach)
  have hproc : w₂.curProc t = process := solo_attachTo hattach
  obtain ⟨base, w₃, hmap, h⟩ := Effect.Solo.bind_iff.mp h
  obtain ⟨e, hmap⟩ := World.solo_op hmap
  have hf₃ := World.exec_frame hmap
  have hview := exec_mapView hmap
  obtain ⟨_, w₄, hdetach, h⟩ := Effect.Solo.bind_iff.mp h
  obtain ⟨_, w₅, hclose, hend⟩ := Effect.Solo.bind_iff.mp h
  have hquiet₅ : w₃.Quiet w₅ :=
    (solo_quiet (detachFrom_quiet saved) hdetach).trans
      (solo_op_quiet ⟨fun _ => rfl, id, id⟩ hclose)
  have hctx : w₅.ctx = w.ctx := hquiet₅.1.trans (hf₃.ctx.trans hquiet₂.1)
  have hreq : w₅.req = w.req := hquiet₅.2.1.trans ((hf₃.req id).trans hquiet₂.2.1)
  cases base with
  | error s =>
    obtain ⟨rfl, rfl⟩ := Effect.Solo.pure_iff.mp hend
    exact ⟨hctx, hreq, hview⟩
  | ok base =>
    obtain ⟨rfl, rfl⟩ := Effect.Solo.pure_iff.mp hend
    refine ⟨hctx, hreq, rfl, ?_⟩
    rw [hquiet₅.2.2, hview, hproc, hquiet₂.2.2]
    rfl

/-- What a successful MAP_SYSMEM checked, the view it added and the address it answered. -/
theorem solo_ioctlMapSysmem {t : Tid} {fileObject : Option FileObject} {w w' : World} {n : Nat}
    {offset length phys : UInt64} (hoffset : offset = UInt64.ofNat (leNat w.req.inBuf 0 8))
    (hlength : length = UInt64.ofNat (leNat w.req.inBuf 8 8)) (hphys : phys = w.ctx.sysmemPhys + offset)
    (h : Solo driverMachine t (ioctlMapSysmem fileObject) w (.success, n) w') :
    n = 16 ∧ mapSysmemAligned offset length = true ∧
      mapSysmemInBounds w.ctx offset length = true ∧
      ∃ addr process base,
        w'.views = ⟨addr, process, base,
          .range (viewStart phys) (length + (phys - viewStart phys))⟩ :: w.views ∧
        UInt64.ofNat (leNat w'.req.output 0 8) = base + (phys - viewStart phys) := by
  cases fileObject with
  | none =>
    obtain ⟨heq, -⟩ := Effect.Solo.pure_iff.mp h
    cases heq
  | some fo =>
  unfold ioctlMapSysmem at h
  simp only [Solo.checkInput_iff, Solo.checkOutput_iff, Solo.inU64_bind, World.record_req,
    ← hoffset, ← hlength] at h
  obtain ⟨-, -, h⟩ := h
  rw [Solo.refuse_iff (by simp)] at h
  obtain ⟨haligned, h⟩ := h
  obtain ⟨_, w₁, hacquire, h⟩ := Effect.Solo.bind_iff.mp h
  have hquiet₁ : w.Quiet w₁ :=
    ((((World.Quiet.record _ _ _).trans (.record _ _ _)).trans (.record _ _ _)).trans
      (.record _ _ _)).trans (solo_op_quiet (o := .acquire .arc) ⟨fun _ => rfl, id, id⟩ hacquire)
  rw [Solo.load_bind] at h
  obtain ⟨_, w₂, hrelease, h⟩ := Effect.Solo.bind_iff.mp h
  have hquiet₂ : w.Quiet w₂ :=
    (hquiet₁.trans (.record _ _ _)).trans
      (solo_op_quiet (o := .release .arc) ⟨fun _ => rfl, id, id⟩ hrelease)
  rw [Solo.refuse_iff (by simp), Solo.load_bind, Solo.refuse_iff (by simp), hquiet₂.1] at h
  obtain ⟨-, hbounds, h⟩ := h
  obtain ⟨process, w₃, hprocess, h⟩ := Effect.Solo.bind_iff.mp h
  have hquiet₃ : w.Quiet w₃ :=
    (hquiet₂.trans (.record _ _ _)).trans (solo_quiet mappingProcess_quiet hprocess)
  obtain ⟨r, w₄, hpool, h⟩ := Effect.Solo.bind_iff.mp h
  have hquiet₄ : w.Quiet w₄ := hquiet₃.trans (solo_op_quiet ⟨fun _ => rfl, id, id⟩ hpool)
  cases r with
  | none =>
    obtain ⟨heq, -⟩ := Effect.Solo.pure_iff.mp h
    cases heq
  | some addr =>
  obtain ⟨_, w₅, href, h⟩ := Effect.Solo.bind_iff.mp h
  have hquiet₅ : w.Quiet w₅ := hquiet₄.trans (solo_op_quiet ⟨fun _ => rfl, id, id⟩ href)
  rw [Solo.load_bind, hquiet₅.1, ← hphys] at h
  obtain ⟨r, w₆, hmap, h⟩ := Effect.Solo.bind_iff.mp h
  obtain ⟨-, hreq₆, hview⟩ := solo_mapSysmemToUser hmap
  cases r with
  | error s =>
    obtain ⟨_, w₇, -, h⟩ := Effect.Solo.bind_iff.mp h
    obtain ⟨_, w₈, -, h⟩ := Effect.Solo.bind_iff.mp h
    obtain ⟨heq, -⟩ := Effect.Solo.pure_iff.mp h
    exact absurd (Prod.mk.inj heq).1.symm hview
  | ok r =>
  obtain ⟨base, va⟩ := r
  obtain ⟨hva, hviews₆⟩ := hview
  obtain ⟨_, w₇, happend, h⟩ := Effect.Solo.bind_iff.mp h
  obtain ⟨e, happend⟩ := World.solo_op happend
  have hviews₇ := (World.exec_frame happend).views id
  simp only [Solo.outZero_bind, Solo.outU64_bind, Solo.inU64_bind] at h
  obtain ⟨heq, rfl⟩ := Effect.Solo.pure_iff.mp h
  refine ⟨(Prod.mk.inj heq).2, by simpa using haligned, by simpa using hbounds, addr, process,
    base, ?_, ?_⟩
  · simp only [World.record_views, hviews₇, hviews₆, hquiet₅.2.2]
  · rw [← hva]
    simp only [World.record_req, Request.output_write]
    rw [leNat_leStore_of_disjoint (by decide), ofNat_leNat_leStore]

/-- A view MAP_SYSMEM makes shows the requested bytes and no byte outside the buffer
exactly when the 64 KiB boundary below the first requested byte is in the buffer and
the widened size does not wrap. -/
theorem sysmem_view_inside_iff {t : Tid} {fileObject : Option FileObject} {w w' : World} {n : Nat}
    (h : Solo driverMachine t (ioctlMapSysmem fileObject) w (.success, n) w') :
    let offset := UInt64.ofNat (leNat w.req.inBuf 0 8)
    let length := UInt64.ofNat (leNat w.req.inBuf 8 8)
    let userVa := UInt64.ofNat (leNat w'.req.output 0 8)
    let start := viewStart (w.ctx.sysmemPhys + offset)
    ∃ v, w'.views = v :: w.views ∧
      (v.ShowsBuffer w.ctx offset length userVa ↔
        w.ctx.sysmemPhys ≤ start ∧
          length.toNat + (w.ctx.sysmemPhys + offset - start).toNat < 2 ^ 64) := by
  intro offset length userVa start
  obtain ⟨-, haligned, hbounds, addr, process, base, hviews, hva⟩ :=
    solo_ioctlMapSysmem rfl rfl rfl h
  refine ⟨_, hviews, ?_⟩
  rw [show userVa = _ from hva]
  exact showsBuffer_iff rfl (mapSysmemInBounds_iff.mp hbounds) (mapSysmemAligned_pos haligned)

/-- A card whose verified 1 GiB buffer starts at the given address, and a request for the
buffer's first page. -/
def firstPageWorld (phys : UInt64) : World :=
  { ctx := { sysmemVa := some 6, sysmemPhys := phys, sysmemSize := 0x40000000,
             sysmemVerified := true }
    req := { fileObject := some 1, inLen := 16, outLen := 16,
             inBuf := fun i => if i = 9 then 0x10 else 0 } }

/-- Everything the request asks the OS for is granted. -/
def firstPageChoices : List Choice :=
  plainOps 10 ++ [.address 0x100] ++ plainOps 4 ++ [.address 0x7F000000] ++ plainOps 6

theorem sysmem_view_inside_iff_first_page :
    ∃ (w' : World) (v : View), w'.views = [v] ∧
      (v.ShowsBuffer (firstPageWorld 0x10000000).ctx 0 0x1000
          (UInt64.ofNat (leNat w'.req.output 0 8)) ↔
        (0x10000000 : UInt64) ≤ viewStart 0x10000000 ∧ 0x1000 + 0 < 2 ^ 64) := by
  have hreplay : (driverMachine.replay .ioctl (ioctlMapSysmem (some 1)) firstPageChoices
      (firstPageWorld 0x10000000)).any (fun r => r.1 == (.success, 16)) = true := by decide
  obtain ⟨a, w', hrun, hend⟩ := Effect.Solo.exists_of_replay hreplay
  obtain rfl : a = (.success, 16) := beq_iff_eq.mp hend
  obtain ⟨v, hviews, hiff⟩ := sysmem_view_inside_iff hrun
  exact ⟨w', v, hviews, hiff⟩

/-- The buffer starts 4 KiB above a 64 KiB boundary: the view of its first page starts
below it. -/
theorem sysmem_view_escapes :
    ¬ ∀ (t : Tid) (fileObject : Option FileObject) (w w' : World) (n : Nat),
      w.ctx.sysmemPhys.toNat % 4096 = 0 →
      Solo driverMachine t (ioctlMapSysmem fileObject) w (.success, n) w' →
      ∃ v, w'.views = v :: w.views ∧
        v.ShowsBuffer w.ctx (UInt64.ofNat (leNat w.req.inBuf 0 8))
          (UInt64.ofNat (leNat w.req.inBuf 8 8)) (UInt64.ofNat (leNat w'.req.output 0 8)) := by
  intro hclaim
  have hreplay : (driverMachine.replay .ioctl (ioctlMapSysmem (some 1)) firstPageChoices
      (firstPageWorld 0x10001000)).any (fun r => r.1 == (.success, 16) &&
        r.2.views.all fun v => v.byteAt v.va 0 == some 0x10000000) = true := by decide
  obtain ⟨a, w', hrun, hend⟩ := Effect.Solo.exists_of_replay hreplay
  rw [Bool.and_eq_true, beq_iff_eq] at hend
  obtain ⟨rfl, hbyte⟩ := hend
  obtain ⟨v, hviews, hshows⟩ := hclaim _ _ _ _ _ (by decide) hrun
  have hfirst : v.byteAt v.va 0 = some 0x10000000 :=
    beq_iff_eq.mp (List.all_eq_true.mp hbyte v (by simp [hviews]))
  have hlow : (0x10001000 : UInt64).toNat ≤ 0x10000000 := (hshows.inside 0 _ hfirst).1
  exact absurd hlow (by decide)

end TtWind
