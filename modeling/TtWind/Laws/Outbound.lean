import TtWind.Laws.Iatu

/-!
# Programming an outbound region

What one call of TtWindIatuProgramOutbound leaves behind, for any arguments and any earlier
registers: beside the bytes of the register block a log keeps every register write made. The
size the call checks is Limit - Base + 1 modulo 2^64, so an interval with no bytes, or one
turned around, can pass as a small one.
-/

set_option autoImplicit false

namespace TtWind

open TtWind.Effect TtWind.Effect.Prog

/-- What has been seen of the register block, and of all register writes. -/
structure IatuSeen where
  regs : IatuRegs
  writes : List (IoPtr × Nat)

/-- The log of the iATU registers, with every register write, the latest first. -/
def outboundLog : Observer DriverSig Tid World IatuSeen where
  initial _ _ := True
  note
    | _, .mmioWrite p off v, _, w, g =>
      { regs := if p = w.ctx.bar2Iatu then leStore g.regs off 4 v.toNat else g.regs
        writes := (p, off) :: g.writes }
    | _, _, _, _, g => g

/-- The machine with the log. -/
abbrev loggedMachine : Machine DriverSig Tid Choice (World × IatuSeen) :=
  driverMachine.observe outboundLog

/-- The bytes of a region's register block. -/
def InRegion (region i : Nat) : Prop :=
  iatuBase + region * iatuRegionStride ≤ i ∧ i < iatuBase + (region + 1) * iatuRegionStride

/-- A nonempty interval of at most 1 TiB, by its first and last address. -/
def Spans (base limit : UInt64) : Prop :=
  base ≤ limit ∧ limit.toNat - base.toNat + 1 ≤ iatuMaxRegionSize.toNat

/-- What programming a region owes its caller. -/
structure OutboundSound (region : Nat) (base limit target : UInt64) (x : World × IatuSeen)
    (status : NtStatus) (y : World × IatuSeen) : Prop where
  range : status = .success →
    (outboundRegion y.2.regs region).enabled = false ∨ Spans base limit
  registers : status = .success →
    outboundRegion y.2.regs region = ⟨base, limit, target, limit ≠ 0⟩ ∧
      iatuReg y.2.regs region iatuRegionCtrl3 = 0
  booked : status = .success →
    y.1.ctx.outboundIatu region = outboundRegion y.2.regs region
  others : ∀ j, j ≠ region → y.1.ctx.outboundIatu j = x.1.ctx.outboundIatu j
  frame : ∀ i, ¬ InRegion region i → y.2.regs i = x.2.regs i
  inside : ∀ e ∈ y.2.writes, e ∈ x.2.writes ∨ (e.1 = x.1.ctx.bar2Iatu ∧ e.2 + 4 ≤ iatuRegsLen)
  refused : status ≠ .success → y = x

/-! ## The size -/

/-- The size as it is computed. -/
theorem size_toNat (base limit : UInt64) :
    (limit - base + 1).toNat = (2 ^ 64 - base.toNat + limit.toNat + 1) % 2 ^ 64 := by
  rw [UInt64.toNat_add, UInt64.toNat_sub, UInt64.toNat_one, Nat.mod_add_mod]

/-- An interval that is not what its size says: all addresses, whose size is 0 again, or one
turned around by exactly 1, or by so much that the size comes out small. -/
def Wraps (base limit : UInt64) : Prop :=
  (base = 0 ∧ limit = 0xFFFFFFFFFFFFFFFF) ∨
    (limit < base ∧ (base.toNat - limit.toNat = 1 ∨
      2 ^ 64 - iatuMaxRegionSize.toNat < base.toNat - limit.toNat))

instance (base limit : UInt64) : Decidable (Wraps base limit) := by
  unfold Wraps
  infer_instance

/-- Past the size check an interval is a nonempty one of at most 1 TiB, or it wraps. -/
theorem spans_iff {base limit : UInt64} (h : ¬ iatuMaxRegionSize < limit - base + 1) :
    Spans base limit ↔ ¬ Wraps base limit := by
  have hb := base.toNat_lt
  have hl := limit.toNat_lt
  have hmax : iatuMaxRegionSize.toNat = 2 ^ 40 := rfl
  have htop : (0xFFFFFFFFFFFFFFFF : UInt64).toNat = 2 ^ 64 - 1 := rfl
  rw [UInt64.lt_iff_toNat_lt, size_toNat, hmax] at h
  unfold Spans Wraps
  rw [← UInt64.toNat_inj, ← UInt64.toNat_inj, UInt64.le_iff_toNat_le, UInt64.lt_iff_toNat_lt, hmax,
    htop, UInt64.toNat_zero]
  omega

/-- What wraps passes the size check. -/
theorem Wraps.accepted {base limit : UInt64} (h : Wraps base limit) :
    ¬ iatuMaxRegionSize < limit - base + 1 := by
  have hb := base.toNat_lt
  have hl := limit.toNat_lt
  have hmax : iatuMaxRegionSize.toNat = 2 ^ 40 := rfl
  have htop : (0xFFFFFFFFFFFFFFFF : UInt64).toNat = 2 ^ 64 - 1 := rfl
  unfold Wraps at h
  rw [← UInt64.toNat_inj, ← UInt64.toNat_inj, UInt64.lt_iff_toNat_lt, hmax, htop,
    UInt64.toNat_zero] at h
  rw [UInt64.lt_iff_toNat_lt, size_toNat, hmax]
  omega

/-! ## The run -/

section Run

variable {t : Tid} {x y : World × IatuSeen}

/-- A read of the context notes nothing. -/
theorem logged_load {c : DeviceContext} {e : Choice}
    (h : loggedMachine.exec t .load e x = some (c, y)) :
    c = x.1.ctx ∧ y.1.ctx = x.1.ctx ∧ y.2 = x.2 := by
  obtain ⟨he, -, hnote⟩ := Machine.observe_exec.mp h
  obtain ⟨w₁, hs, -⟩ := World.exec_step (driverMachine_exec ▸ he)
  simp only [World.step, Option.some.injEq, Prod.mk.injEq] at hs
  obtain ⟨rfl, rfl⟩ := hs
  exact ⟨rfl, (World.exec_frame (driverMachine_exec ▸ he)).ctx, hnote⟩

theorem logged_store {f : DeviceContext → DeviceContext} {u : Unit} {e : Choice}
    (h : loggedMachine.exec t (.store f) e x = some (u, y)) :
    y.1.ctx = f x.1.ctx ∧ y.2 = x.2 := by
  obtain ⟨he, -, hnote⟩ := Machine.observe_exec.mp h
  exact ⟨(World.exec_frame (driverMachine_exec ▸ he)).ctx, hnote⟩

/-- A register write is stored if it goes through the pointer to the block, and is noted. -/
theorem logged_write {off : Nat} {v : UInt32} {u : Unit} {e : Choice}
    (h : loggedMachine.exec t (.mmioWrite x.1.ctx.bar2Iatu off v) e x = some (u, y)) :
    y.1.ctx = x.1.ctx ∧ y.2.regs = leStore x.2.regs off 4 v.toNat ∧
      y.2.writes = (x.1.ctx.bar2Iatu, off) :: x.2.writes := by
  obtain ⟨he, -, hnote⟩ := Machine.observe_exec.mp h
  rw [hnote]
  exact ⟨(World.exec_frame (driverMachine_exec ▸ he)).ctx, if_pos rfl, rfl⟩

/-- Writes through the pointer to the block are stored in order. -/
theorem writeRegisters_seen {es : List (Nat × UInt32)} {u : Unit}
    (h : Solo loggedMachine t (writeRegisters x.1.ctx.bar2Iatu es) x u y) :
    y.1.ctx = x.1.ctx ∧ y.2.regs = storeAll x.2.regs es ∧
      ∀ e ∈ y.2.writes, e ∈ x.2.writes ∨ ∃ d ∈ es, e = (x.1.ctx.bar2Iatu, d.1) := by
  induction es generalizing x with
  | nil =>
    obtain ⟨-, rfl⟩ := Solo.pure_iff.mp h
    exact ⟨rfl, rfl, fun e he => .inl he⟩
  | cons d es ih =>
    unfold writeRegisters at h
    obtain ⟨v, z, hwrite, hrest⟩ := Solo.bind_iff.mp h
    obtain ⟨e, he⟩ := Solo.perform_iff.mp hwrite
    obtain ⟨hctx, hregs, hwrites⟩ := logged_write he
    rw [← hctx] at hrest
    obtain ⟨hctx', hregs', hwrites'⟩ := ih hrest
    refine ⟨hctx'.trans hctx, ?_, ?_⟩
    · rw [hregs', hregs]
      rfl
    · intro e he
      rcases hwrites' e he with hold | ⟨d', hd', rfl⟩
      · rw [hwrites] at hold
        rcases List.mem_cons.mp hold with rfl | hold
        · exact .inr ⟨d, List.mem_cons_self, rfl⟩
        · exact .inl hold
      · rw [hctx]
        exact .inr ⟨d', List.mem_cons_of_mem _ hd', rfl⟩

end Run

/-! ## The registers of a region -/

/-- The registers of a region lie in its block. -/
theorem iatuWrites_inRegion {region : Nat} {base limit target : UInt64} {d : Nat × UInt32}
    (hd : d ∈ iatuWrites region base limit target) {i : Nat} (hlow : d.1 ≤ i) (hhigh : i < d.1 + 4) :
    InRegion region i := by
  simp only [iatuWrites, List.mem_cons, List.not_mem_nil, or_false] at hd
  simp only [InRegion, iatuRegionStride]
  rcases hd with rfl | rfl | rfl | rfl | rfl | rfl | rfl | rfl | rfl <;>
    simp only [iatuLowerBase, iatuUpperBase, iatuLowerTarget, iatuUpperTarget, iatuLowerLimit,
      iatuUpperLimit, iatuRegionCtrl1, iatuRegionCtrl2, iatuRegionCtrl3, iatuRegionStride]
      at hlow hhigh <;>
    omega

/-- The blocks of all regions lie in the mapped registers. -/
theorem InRegion.lt {region i : Nat} (h : InRegion region i) (hregion : region < iatuOutboundRegions) :
    i < iatuRegsLen := by
  unfold InRegion at h
  simp only [iatuBase, iatuRegionStride, iatuOutboundRegions, iatuRegsLen] at *
  omega

/-- The third control register of a region is cleared. -/
theorem iatuReg_ctrl3 (g : IatuRegs) (region : Nat) (base limit target : UInt64) :
    iatuReg (storeAll g (iatuWrites region base limit target)) region iatuRegionCtrl3 = 0 :=
  leNat_storeAll (e := (iatuBase + region * iatuRegionStride + iatuRegionCtrl3, 0))
    (iatuWrites_apart region base limit target) (by simp [iatuWrites])

/-! ## What programming leaves -/

section Outbound

variable {t : Tid} {region : Nat} {base limit target : UInt64} {x y : World × IatuSeen}
  {status : NtStatus}

/-- An accepted interval is programmed, booked, and nothing else is touched. -/
theorem iatuProgramOutbound_accepted
    (h : Solo loggedMachine t (iatuProgramOutbound region base limit target) x status y)
    (hsize : ¬ iatuMaxRegionSize < limit - base + 1) (hregion : region < iatuOutboundRegions) :
    status = .success ∧
      y.1.ctx.outboundIatu =
        Function.update x.1.ctx.outboundIatu region ⟨base, limit, target, limit ≠ 0⟩ ∧
      y.2.regs = storeAll x.2.regs (iatuWrites region base limit target) ∧
      ∀ e ∈ y.2.writes, e ∈ x.2.writes ∨
        ∃ d ∈ iatuWrites region base limit target, e = (x.1.ctx.bar2Iatu, d.1) := by
  rw [iatuProgramOutbound_eq, if_neg hsize, if_neg (Nat.not_le.mpr hregion)] at h
  obtain ⟨c, x₁, hload, h⟩ := Solo.bind_iff.mp h
  obtain ⟨e, he⟩ := Solo.perform_iff.mp hload
  obtain ⟨rfl, hctx, hseen⟩ := logged_load he
  obtain ⟨u, x₂, hwrites, h⟩ := Solo.bind_iff.mp h
  rw [← hctx] at hwrites
  obtain ⟨hctx₂, hregs, hnoted⟩ := writeRegisters_seen hwrites
  obtain ⟨u', x₃, hstore, h⟩ := Solo.bind_iff.mp h
  obtain ⟨e', he'⟩ := Solo.perform_iff.mp hstore
  obtain ⟨hctx₃, hseen₃⟩ := logged_store he'
  obtain ⟨rfl, rfl⟩ := Solo.pure_iff.mp h
  have hon : decide ((if limit = 0 then 0 else iatuRegionEn) ≠ 0) = decide (limit ≠ 0) := by
    by_cases hlimit : limit = 0
    · simp [hlimit]
    · simp [hlimit, iatuRegionEn]
  refine ⟨rfl, ?_, ?_, ?_⟩
  · rw [hctx₃, hctx₂, hctx, hon]
  · rw [hseen₃, hregs, hseen]
  · rw [hseen₃]
    rw [hseen, hctx] at hnoted
    exact hnoted

/-- A refused interval or region is answered before anything is read. -/
theorem iatuProgramOutbound_refused
    (h : Solo loggedMachine t (iatuProgramOutbound region base limit target) x status y)
    (hbad : iatuMaxRegionSize < limit - base + 1 ∨ iatuOutboundRegions ≤ region) :
    status = .invalidParameter ∧ y = x := by
  rw [iatuProgramOutbound_eq] at h
  by_cases hsize : iatuMaxRegionSize < limit - base + 1
  · rw [if_pos hsize] at h
    exact Solo.pure_iff.mp h
  · rw [if_neg hsize, if_pos (hbad.resolve_left hsize)] at h
    exact Solo.pure_iff.mp h

/-- Programming a region is sound exactly when the region does not exist, the interval turns it
off, or the interval does not wrap. -/
theorem outbound_sound_iff
    (h : Solo loggedMachine t (iatuProgramOutbound region base limit target) x status y) :
    OutboundSound region base limit target x status y ↔
      iatuOutboundRegions ≤ region ∨ limit = 0 ∨ ¬ Wraps base limit := by
  by_cases hbad : iatuMaxRegionSize < limit - base + 1 ∨ iatuOutboundRegions ≤ region
  · obtain ⟨rfl, rfl⟩ := iatuProgramOutbound_refused h hbad
    have hcond : iatuOutboundRegions ≤ region ∨ limit = 0 ∨ ¬ Wraps base limit := by
      rcases hbad with hsize | hregion
      · exact .inr (.inr fun hwraps => hwraps.accepted hsize)
      · exact .inl hregion
    exact ⟨fun _ => hcond, fun _ => ⟨nofun, nofun, nofun, fun _ _ => rfl, fun _ _ => rfl,
      fun _ he => .inl he, fun _ => rfl⟩⟩
  · obtain ⟨hsize, hregion⟩ := not_or.mp hbad
    have hlt := Nat.lt_of_not_le hregion
    obtain ⟨rfl, hbook, hregs, hwrites⟩ := iatuProgramOutbound_accepted h hsize hlt
    have hdecode : outboundRegion y.2.regs region = ⟨base, limit, target, limit ≠ 0⟩ := by
      rw [hregs]
      exact outboundRegion_writes _ region base limit target
    constructor
    · intro hsound
      rcases hsound.range rfl with hoff | hspans
      · rw [hdecode] at hoff
        have hlimit : limit = 0 := by simpa using hoff
        exact .inr (.inl hlimit)
      · exact .inr (.inr ((spans_iff hsize).mp hspans))
    · intro hcond
      refine ⟨fun _ => ?_, fun _ => ⟨hdecode, ?_⟩, fun _ => ?_, ?_, ?_, ?_, fun hne => absurd rfl hne⟩
      · rw [hdecode]
        rcases hcond.resolve_left hregion with hlimit | hproper
        · left
          simp [hlimit]
        · exact .inr ((spans_iff hsize).mpr hproper)
      · rw [hregs]
        exact iatuReg_ctrl3 _ region base limit target
      · rw [hdecode, hbook, Function.update_self]
      · intro j hj
        rw [hbook, Function.update_of_ne hj]
      · intro i hout
        rw [hregs]
        apply storeAll_of_not_mem
        intro d hd hin
        exact hout (iatuWrites_inRegion hd hin.1 hin.2)
      · intro e he
        rcases hwrites e he with hold | ⟨d, hd, rfl⟩
        · exact .inl hold
        · have hlast : InRegion region (d.1 + 3) := iatuWrites_inRegion hd (by omega) (by omega)
          have hend := hlast.lt hlt
          exact .inr ⟨rfl, by show d.1 + 4 ≤ iatuRegsLen; omega⟩

end Outbound

/-! ## Two calls -/

/-- A device whose register block is mapped, with nothing programmed. -/
def blankBlock : World × IatuSeen :=
  ({ ctx := { bar2Iatu := some 0x7F000000 } }, { regs := fun _ => 0, writes := [] })

/-- A full 1 TiB in the last region. -/
theorem outbound_sound_iff_last_region :
    ∃ y, OutboundSound 15 0x40000000 0x1003FFFFFFF 0x8000000000 blankBlock .success y := by
  have hreplay : (loggedMachine.replay .ioctl
      (iatuProgramOutbound 15 0x40000000 0x1003FFFFFFF 0x8000000000) (plainOps 11) blankBlock).any
      (fun r => r.1 == .success) = true := by decide
  obtain ⟨status, y, hrun, hend⟩ := Solo.exists_of_replay hreplay
  obtain rfl : status = .success := beq_iff_eq.mp hend
  exact ⟨y, (outbound_sound_iff hrun).mpr (.inr (.inr (by decide)))⟩

/-- The interval that ends right below its base passes as one of size 0, and is programmed
and turned on. -/
theorem outbound_wraps :
    ¬ ∀ (t : Tid) (region : Nat) (base limit target : UInt64) (x y : World × IatuSeen)
        (status : NtStatus),
      Solo loggedMachine t (iatuProgramOutbound region base limit target) x status y →
      OutboundSound region base limit target x status y := by
  intro hclaim
  have hreplay : (loggedMachine.replay .ioctl (iatuProgramOutbound 0 0x200000 0x1FFFFF 0)
      (plainOps 11) blankBlock).any
      (fun r => r.1 == .success && (outboundRegion r.2.2.regs 0).enabled) = true := by decide
  obtain ⟨status, y, hrun, hend⟩ := Solo.exists_of_replay hreplay
  rw [Bool.and_eq_true, beq_iff_eq] at hend
  obtain ⟨rfl, hon⟩ := hend
  rcases (hclaim _ _ _ _ _ _ _ _ hrun).range rfl with hoff | hspans
  · rw [hon] at hoff
    cases hoff
  · exact absurd hspans.1 (by decide)

end TtWind
