import TtWind.Driver.Schedule
import TtWind.Laws.Programs
import TtWind.Laws.Solo

/-!
# Re-arming and the sysmem buffer

The arm runs on a fresh buffer and on a live one. Its loopback writes a pattern
at three places and zeroes them afterwards, on every path through it; nothing
before or after the loopback writes the buffer. So an arm preserves the buffer
exactly when it stops before the loopback or those places held zeros. Here the arm runs
alone; what it does among other threads is in `TtWind.Laws.Stages`.
-/

set_option autoImplicit false

namespace TtWind

open TtWind.Effect TtWind.Effect.Prog

/-! ## Code that leaves the buffer -/

/-- What the arm does besides writing the buffer. -/
def stillFoot : Op → Prop
  | .mmioRead _ _ | .mmioWrite _ _ _ => True
  | .store f => ArcFrame f
  | o => o.plain

theorem arcScope_stillFoot : ArcScope (fun _ _ => True) stillFoot :=
  arcScope_of (fun o ho => by cases o <;> first | exact ho | exact ho.elim)
    (fun _ hf => hf) fun _ _ => ⟨trivial, fun _ => trivial⟩

/-- The buffer and its recorded size are as before. -/
def World.Still (w w' : World) : Prop :=
  w'.buffer = w.buffer ∧ w'.ctx.sysmemSize = w.ctx.sysmemSize

theorem World.Still.trans {u v w : World} (h₁ : u.Still v) (h₂ : v.Still w) : u.Still w :=
  ⟨h₂.1.trans h₁.1, h₂.2.trans h₁.2⟩

theorem World.Still.of_record {t : Tid} {ev : Event} {w w' : World}
    (h : (w.record t ev).Still w') : w.Still w' := h

theorem exec_still {t : Tid} {o : Op} (ho : stillFoot o) {e : Choice} {w w' : World} {x : o.Ans}
    (h : w.exec t o e = some (x, w')) : w.Still w' := by
  have hf := World.exec_frame h
  cases o with
  | store f =>
    have hsize := congrArg DeviceContext.sysmemSize ((ho : ArcFrame f) w.ctx)
    refine ⟨hf.buffer id, ?_⟩
    rw [hf.ctx]
    exact hsize
  | _ =>
    first
      | exact ⟨hf.buffer id, congrArg DeviceContext.sysmemSize hf.ctx⟩
      | exact (ho : False).elim

theorem solo_still {t : Tid} {α : Type} {p : Drv α} (hp : p.Only stillFoot) {w w' : World} {a : α}
    (h : Solo driverMachine t p w a w') : w.Still w' :=
  Solo.keeps (fun _ => ⟨rfl, rfl⟩) World.Still.trans (fun _ ho {_ _ _ _} he => exec_still ho he) hp h

/-- Nothing is known of what loads answer. -/
theorem seenWindow_any : SeenWindow fun _ _ => True where
  regs := ⟨{ tlbRegs := some 0 }, trivial, by simp⟩
  window := ⟨{ kernelTlb := some 0 }, trivial, by simp⟩

/-! ## The loopback -/

/-- The eight bytes of a probe. -/
def InProbe (off : UInt64) (i : Nat) : Prop := off.toNat ≤ i ∧ i < off.toNat + 8

/-- A byte some probe writes. -/
def Probed (offs : List UInt64) (i : Nat) : Prop := ∃ off ∈ offs, InProbe off i

theorem solo_bufferWrite {t : Tid} {off : Nat} {v : UInt32} {w w' : World}
    (h : Solo driverMachine t (op (.bufferWrite off v)) w () w') :
    w'.buffer = leStore w.buffer off 4 v.toNat ∧ w'.ctx.sysmemSize = w.ctx.sysmemSize := by
  obtain ⟨e, he⟩ := World.solo_op h
  obtain ⟨w₁, hs, rfl⟩ := World.exec_step he
  simp only [World.step, Option.some.injEq, Prod.mk.injEq, true_and] at hs
  subst hs
  exact ⟨rfl, rfl⟩

/-- Both dwords of a probe are written, and no other byte. -/
theorem solo_probe {t : Tid} {off : UInt64} {u v : UInt32} {α : Type} {p : Drv α} {w w' : World}
    {a : α} (h : Solo driverMachine t (do
      op (.bufferWrite off.toNat u)
      op (.bufferWrite (off.toNat + 4) v)
      p) w a w') :
    ∃ w₁, Solo driverMachine t p w₁ a w' ∧ w₁.ctx.sysmemSize = w.ctx.sysmemSize ∧
      w₁.buffer = leStore (leStore w.buffer off.toNat 4 u.toNat) (off.toNat + 4) 4 v.toNat := by
  obtain ⟨_, w₁, hfirst, h⟩ := Solo.bind_iff.mp h
  obtain ⟨_, w₂, hsecond, h⟩ := Solo.bind_iff.mp h
  obtain ⟨hbuf₁, hsize₁⟩ := solo_bufferWrite hfirst
  obtain ⟨hbuf₂, hsize₂⟩ := solo_bufferWrite hsecond
  exact ⟨w₂, h, hsize₂.trans hsize₁, by rw [hbuf₂, hbuf₁]⟩

theorem probe_frame {b : Nat → UInt8} {off : UInt64} {u v i : Nat} (h : ¬ InProbe off i) :
    leStore (leStore b off.toNat 4 u) (off.toNat + 4) 4 v i = b i := by
  unfold InProbe at h
  rw [leStore_of_not_mem (by omega), leStore_of_not_mem (by omega)]

theorem probe_zero {b : Nat → UInt8} {off : UInt64} {i : Nat} (h : InProbe off i) :
    leStore (leStore b off.toNat 4 0) (off.toNat + 4) 4 0 i = 0 := by
  unfold InProbe at h
  simp only [leStore, Nat.zero_div]
  split
  · rfl
  · rw [if_pos (by omega)]
    rfl

theorem solo_writeProbes {t : Tid} {offs : List UInt64} {n : Nat} {w w' : World}
    (h : Solo driverMachine t (writeProbes n offs) w () w') :
    w'.ctx.sysmemSize = w.ctx.sysmemSize ∧ ∀ i, ¬ Probed offs i → w'.buffer i = w.buffer i := by
  induction offs generalizing n w with
  | nil =>
    obtain ⟨-, rfl⟩ := Solo.pure_iff.mp h
    exact ⟨rfl, fun _ _ => rfl⟩
  | cons off offs ih =>
    obtain ⟨w₁, hrest, hsize, hbuf⟩ := solo_probe h
    obtain ⟨hsize', hsame⟩ := ih hrest
    refine ⟨hsize'.trans hsize, fun i hi => ?_⟩
    have hnot : ¬ InProbe off i := fun hin => hi ⟨off, .head _, hin⟩
    have hrest : ¬ Probed offs i := fun ⟨o, ho, hin⟩ => hi ⟨o, .tail _ ho, hin⟩
    rw [hsame i hrest, hbuf, probe_frame hnot]

theorem solo_zeroProbes {t : Tid} {offs : List UInt64} {w w' : World}
    (h : Solo driverMachine t (zeroProbes offs) w () w') :
    ∀ i, (Probed offs i → w'.buffer i = 0) ∧ (¬ Probed offs i → w'.buffer i = w.buffer i) := by
  induction offs generalizing w with
  | nil =>
    obtain ⟨-, rfl⟩ := Solo.pure_iff.mp h
    exact fun i => ⟨fun ⟨_, hmem, _⟩ => absurd hmem (by simp), fun _ => rfl⟩
  | cons off offs ih =>
    obtain ⟨w₁, hrest, -, hbuf⟩ := solo_probe h
    have hlater := ih hrest
    intro i
    by_cases hin : Probed offs i
    · refine ⟨fun _ => (hlater i).1 hin, fun hnot => absurd ?_ hnot⟩
      obtain ⟨o, ho, hi⟩ := hin
      exact ⟨o, .tail _ ho, hi⟩
    · rw [(hlater i).2 hin, hbuf]
      constructor
      · rintro ⟨o, ho, hi⟩
        rcases List.mem_cons.mp ho with rfl | ho
        · exact probe_zero hi
        · exact absurd ⟨o, ho, hi⟩ hin
      · intro hnot
        exact probe_frame fun hi => hnot ⟨off, .head _, hi⟩

/-- After the loopback the probed bytes are zero, and the rest is as it was. -/
theorem solo_loopback {t : Tid} {w w' : World} {s : NtStatus}
    (h : Solo driverMachine t sysmemLoopbackVerify w s w') (i : Nat) :
    (Probed (loopbackOffsets w.ctx.sysmemSize) i → w'.buffer i = 0) ∧
      (¬ Probed (loopbackOffsets w.ctx.sysmemSize) i → w'.buffer i = w.buffer i) := by
  unfold sysmemLoopbackVerify at h
  simp only [Solo.load_bind, Solo.store_bind] at h
  obtain ⟨_, w₁, hwrite, h⟩ := Solo.bind_iff.mp h
  obtain ⟨_, w₂, hbarrier, h⟩ := Solo.bind_iff.mp h
  obtain ⟨_, w₃, hverify, h⟩ := Solo.bind_iff.mp h
  obtain ⟨_, w₄, hzero, h⟩ := Solo.bind_iff.mp h
  obtain ⟨-, rfl⟩ := Solo.pure_iff.mp h
  obtain ⟨hsize₁, hwritten⟩ := solo_writeProbes hwrite
  have hstill : w₁.Still w₃ :=
    (solo_still (p := op .memoryBarrier) ⟨trivial, fun _ _ => trivial⟩ hbarrier).trans
      (solo_still (verifyProbes_within arcScope_stillFoot.toMailScope
        (fun _ => arcScope_stillFoot.probes) seenWindow_any _ _) hverify)
  obtain ⟨hzeroed, hkept⟩ := solo_zeroProbes hzero i
  refine ⟨hzeroed, fun hnot => ?_⟩
  rw [hkept hnot, hstill.1, hwritten i hnot]
  rfl

/-! ## The stages before it -/

/-- The device's answer among the environment's choices. -/
def wordAt (es : List Choice) (i : Nat) : UInt32 :=
  match es[i]? with
  | some (.word v) => v
  | _ => 0

/-- The NOC_ID read does not name a PCIe tile. -/
def NoTile (nocId : UInt32) : Prop :=
  nocId = 0xFFFFFFFF ∨ (nocId &&& 0x3F ≠ 2 ∧ nocId &&& 0x3F ≠ 11)

/-- Detection reads NOC_ID once and succeeds exactly when that names a tile. -/
theorem replay_detect {t : Tid} {es : List Choice} (rest : List Choice) {w w' : World}
    {s : NtStatus} (h : driverMachine.replay t sysmemDetectPcieTile es w = some (s, w')) :
    w.Still w' ∧ (s.ok = true ↔ w.ctx.nocIdRegs ≠ none ∧ ¬ NoTile (wordAt (es ++ rest) 1)) := by
  refine ⟨solo_still (sysmemDetectPcieTile_within arcScope_stillFoot)
    (Solo.iff_replay.mpr ⟨es, h⟩), ?_⟩
  unfold sysmemDetectPcieTile at h
  rw [Replay.load_bind] at h
  obtain ⟨e₀, es, rfl, h⟩ := h
  split at h
  · rename_i hnone
    obtain ⟨-, rfl, -⟩ := Machine.replay_pure.mp h
    simp [NtStatus.ok, NtStatus.code, hnone]
  rename_i hsome
  rw [readRegister, Replay.op_bind] at h
  obtain ⟨e₁, es, nocId, w₁, rfl, hread, h⟩ := h
  have hword : wordAt (e₀ :: e₁ :: es ++ rest) 1 = nocId := by
    cases e₁ <;> simp only [World.step, reduceCtorEq, Option.some.injEq, Prod.mk.injEq] at hread
    exact hread.1
  rw [Replay.store_bind] at h
  obtain ⟨e₂, es, rfl, h⟩ := h
  rw [hword, NoTile]
  split at h
  · rename_i hones
    obtain ⟨-, rfl, -⟩ := Machine.replay_pure.mp h
    simp [NtStatus.ok, NtStatus.code, hones]
  rename_i hones
  dsimp only at h
  split at h
  · rename_i hother
    obtain ⟨-, rfl, -⟩ := Machine.replay_pure.mp h
    simp [NtStatus.ok, NtStatus.code, hones, hother]
  · rename_i htile
    rw [Replay.store_bind] at h
    obtain ⟨e₃, es, rfl, h⟩ := h
    obtain ⟨-, rfl, -⟩ := Machine.replay_pure.mp h
    simp [NtStatus.ok, NtStatus.code, hones, htile, hsome]

/-- Programming the region fails only for a size over the controller's limit. -/
theorem solo_iatu {t : Tid} {limit target : UInt64} {w w' : World} {s : NtStatus}
    (h : Solo driverMachine t (iatuProgramOutbound 0 0 limit target) w s w') :
    w.Still w' ∧ (s.ok = true ↔ ¬ iatuMaxRegionSize < limit + 1) := by
  have hwithin := iatuProgramOutbound_within arcScope_stillFoot
    ⟨{ bar2Iatu := some 0 }, trivial, by simp⟩ 0 0 limit target
  refine ⟨solo_still hwithin h, ?_⟩
  unfold iatuProgramOutbound at h
  simp only [UInt64.sub_zero] at h
  split at h
  · rename_i hbig
    obtain ⟨rfl, -⟩ := Solo.pure_iff.mp h
    simp [NtStatus.ok, NtStatus.code, hbig]
  · rename_i hfits
    rw [if_neg (by decide)] at h
    simp only [Solo.load_bind, Solo.writeRegister_bind, Solo.store_bind] at h
    obtain ⟨rfl, -⟩ := Solo.pure_iff.mp h
    simp [NtStatus.ok, NtStatus.code, hfits]

/-- A stage before the loopback fails, given the device's answer to the NOC_ID read. -/
def StagesStop (c : DeviceContext) (nocId : UInt32) : Prop :=
  c.sysmemVa = none ∨ (c.bar2Iatu = none ∨ c.kernelTlb = none ∨ c.tlbRegs = none) ∨
    (c.nocIdRegs = none ∨ NoTile nocId) ∨ iatuMaxRegionSize < c.sysmemSize

/-- The arm stops before the loopback. -/
def ArmStops (c : DeviceContext) (nocId : UInt32) : Prop :=
  c.needsHwInit = true ∨ StagesStop c nocId

/-- What the arm does to the buffer, given whether it stops before the loopback. -/
structure ArmEffect (stops : Prop) (w w' : World) : Prop where
  kept : stops → w'.buffer = w.buffer
  probed : ¬ stops → ∀ i,
    (Probed (loopbackOffsets w.ctx.sysmemSize) i → w'.buffer i = 0) ∧
      (¬ Probed (loopbackOffsets w.ctx.sysmemSize) i → w'.buffer i = w.buffer i)

theorem ArmEffect.of_still {stops : Prop} {w w' : World} (hs : stops) (h : w.Still w') :
    ArmEffect stops w w' :=
  ⟨fun _ => h.1, fun hn => absurd hs hn⟩

theorem replay_armStages {t : Tid} {es : List Choice} (rest : List Choice) {w w' : World}
    {s : NtStatus} (h : driverMachine.replay t armStages es w = some (s, w')) :
    ArmEffect (StagesStop w.ctx (wordAt (es ++ rest) 3)) w w' := by
  unfold armStages at h
  rw [Replay.load_bind] at h
  obtain ⟨e₀, es, rfl, h⟩ := h
  have hstage := fun s => setStage_within arcScope_stillFoot s
  split at h
  · rename_i hva
    refine .of_still (.inl hva) (.of_record (solo_still ?_ (Solo.iff_replay.mpr ⟨es, h⟩)))
    exact (hstage _).bind fun _ => trivial
  split at h
  · rename_i hregs
    refine .of_still (.inr (.inl hregs)) (.of_record (solo_still ?_ (Solo.iff_replay.mpr ⟨es, h⟩)))
    exact (hstage _).bind fun _ => trivial
  rename_i hva hregs
  rw [setStage, Replay.store_bind] at h
  obtain ⟨e₁, es, rfl, h⟩ := h
  rw [Machine.replay_bind] at h
  obtain ⟨es₁, es₂, s₁, w₁, rfl, hdetect, h⟩ := h
  obtain ⟨hstill, hok₁⟩ := replay_detect (es₂ ++ rest) hdetect
  have hstill₁ : w.Still w₁ := hstill
  rw [← List.append_assoc] at hok₁
  change (s₁.ok = true ↔ w.ctx.nocIdRegs ≠ none ∧
    ¬ NoTile (wordAt (e₀ :: e₁ :: (es₁ ++ es₂) ++ rest) 3)) at hok₁
  generalize wordAt (e₀ :: e₁ :: (es₁ ++ es₂) ++ rest) 3 = nocId at hok₁ ⊢
  split at h
  · rename_i hbad
    obtain ⟨-, rfl, rfl⟩ := Machine.replay_pure.mp h
    have hstop : w.ctx.nocIdRegs = none ∨ NoTile nocId := by
      by_contra hnone
      rw [not_or] at hnone
      rw [hok₁.mpr hnone] at hbad
      cases hbad
    exact .of_still (.inr (.inr (.inl hstop))) hstill₁
  rename_i hdetected
  have htile := hok₁.mp (by simpa using hdetected)
  have h := Solo.iff_replay.mpr ⟨es₂, h⟩
  rw [setStage, Solo.store_bind, Solo.load_bind] at h
  obtain ⟨s₂, w₂, hiatu, h⟩ := Solo.bind_iff.mp h
  obtain ⟨hstill₂, hok₂⟩ := solo_iatu hiatu
  have hstill₂ : w.Still w₂ := hstill₁.trans hstill₂
  have hok₂ : s₂.ok = true ↔ ¬ iatuMaxRegionSize < w.ctx.sysmemSize := by
    have hsize : w₁.ctx.sysmemSize - 1 + 1 = w.ctx.sysmemSize := by
      rw [UInt64.sub_add_cancel, hstill₁.2]
    rw [← hsize]
    exact hok₂
  split at h
  · rename_i hbad
    obtain ⟨rfl, rfl⟩ := Solo.pure_iff.mp h
    have hbig : iatuMaxRegionSize < w.ctx.sysmemSize := by
      by_contra hfits
      rw [hok₂.mpr hfits] at hbad
      cases hbad
    exact .of_still (.inr (.inr (.inr hbig))) hstill₂
  rename_i hfits
  rw [setStage, Solo.store_bind] at h
  obtain ⟨s₃, w₃, hloop, h⟩ := Solo.bind_iff.mp h
  have hend : w₃.Still w' := by
    refine solo_still ?_ h
    refine Within.ite (fun _ => trivial) fun _ => (hstage _).bind fun _ => ?_
    exact ⟨fun _ => rfl, fun _ _ => trivial⟩
  have hgoes : ¬ StagesStop w.ctx nocId := by
    rintro (hnone | hnone | hnone | hbig)
    · exact hva hnone
    · exact hregs hnone
    · exact hnone.elim htile.1 htile.2
    · exact hok₂.mp (by simpa using hfits) hbig
  refine ⟨fun hstop => absurd hstop hgoes, fun _ i => ?_⟩
  obtain ⟨hzero, hkept⟩ := solo_loopback hloop i
  rw [hend.1, ← hstill₂.2, ← hstill₂.1]
  exact ⟨hzero, hkept⟩

/-- The part under the lock; the NOC_ID read is its sixth operation. -/
theorem replay_armLocked {t : Tid} {es : List Choice} (rest : List Choice) {w w' : World}
    {s : NtStatus} (h : driverMachine.replay t armLocked es w = some (s, w')) :
    ArmEffect (ArmStops w.ctx (wordAt (es ++ rest) 5)) w w' := by
  unfold armLocked at h
  rw [Replay.store_bind] at h
  obtain ⟨e₀, es, rfl, h⟩ := h
  rw [Replay.load_bind] at h
  obtain ⟨e₁, es, rfl, h⟩ := h
  split at h
  · rename_i hneeds
    obtain ⟨-, rfl, rfl⟩ := Machine.replay_pure.mp h
    exact .of_still (.inl hneeds) ⟨rfl, rfl⟩
  rename_i hneeds
  rw [Machine.replay_bind] at h
  obtain ⟨es₁, es₂, s₁, w₁, rfl, hstages, h⟩ := h
  rw [Replay.store_bind] at h
  obtain ⟨e₂, es₂, rfl, h⟩ := h
  obtain ⟨-, rfl, rfl⟩ := Machine.replay_pure.mp h
  obtain ⟨hkept, hprobed⟩ := replay_armStages (e₂ :: es₂ ++ rest) hstages
  rw [← List.append_assoc] at hkept hprobed
  refine ⟨?_, fun hgoes => hprobed fun hstop => hgoes (.inr hstop)⟩
  rintro (hinit | hstop)
  · exact absurd hinit hneeds
  · exact hkept hstop

/-- The arm as a whole; the NOC_ID read is its seventh operation. -/
theorem replay_sysmemArm {t : Tid} {es : List Choice} {w w' : World} {s : NtStatus}
    (h : driverMachine.replay t sysmemArm es w = some (s, w')) :
    ArmEffect (ArmStops w.ctx (wordAt es 6)) w w' := by
  unfold sysmemArm at h
  rw [acquire, Replay.op_bind] at h
  obtain ⟨e₀, es, _, w₁, rfl, hacquire, h⟩ := h
  simp only [World.step, Option.ite_none_right_eq_some, Option.some.injEq, Prod.mk.injEq] at hacquire
  obtain ⟨-, -, rfl⟩ := hacquire
  rw [Machine.replay_bind] at h
  obtain ⟨es₁, es₂, s₁, w₂, rfl, hlocked, h⟩ := h
  obtain ⟨hkept, hprobed⟩ := replay_armLocked es₂ hlocked
  rw [release, Replay.op_bind] at h
  obtain ⟨e₃, es₃, _, w₃, rfl, hrelease, h⟩ := h
  simp only [World.step, Option.ite_none_right_eq_some, Option.some.injEq, Prod.mk.injEq] at hrelease
  obtain ⟨-, -, rfl⟩ := hrelease
  obtain ⟨-, rfl, rfl⟩ := Machine.replay_pure.mp h
  exact ⟨hkept, hprobed⟩

/-- An arm leaves every byte of the buffer as it was exactly when it stops before the
loopback, or every byte the loopback probes is zero already. -/
theorem arm_preserves_buffer_iff {t : Tid} {es : List Choice} {w w' : World} {s : NtStatus}
    (h : driverMachine.replay t sysmemArm es w = some (s, w')) :
    w'.buffer = w.buffer ↔
      ArmStops w.ctx (wordAt es 6) ∨
        ∀ i, Probed (loopbackOffsets w.ctx.sysmemSize) i → w.buffer i = 0 := by
  obtain ⟨hkept, hprobed⟩ := replay_sysmemArm h
  constructor
  · intro hsame
    by_cases hstop : ArmStops w.ctx (wordAt es 6)
    · exact .inl hstop
    · right
      intro i hi
      rw [← hsame]
      exact (hprobed hstop i).1 hi
  · rintro (hstop | hzero)
    · exact hkept hstop
    · by_cases hstop : ArmStops w.ctx (wordAt es 6)
      · exact hkept hstop
      · funext i
        by_cases hi : Probed (loopbackOffsets w.ctx.sysmemSize) i
        · rw [(hprobed hstop i).1 hi, hzero i hi]
        · exact (hprobed hstop i).2 hi

/-- A card with its register blocks mapped and a 256 MiB buffer whose first byte is `b`. -/
def liveBufferWorld (b : UInt8) : World :=
  { ctx := { tlbRegs := some 1, kernelTlb := some 2, nocIdRegs := some 4, bar2Iatu := some 5,
             sysmemVa := some 6, sysmemPhys := 0x10000000, sysmemSize := 0x10000000 }
    buffer := fun i => if i = 0 then b else 0 }

/-- Tile 2 answers the NOC_ID read, and the first read of the loopback is all-1s. -/
def lostLoopback : List Choice :=
  plainOps 6 ++ [.word 2] ++ plainOps 31 ++ [.word 0xFFFFFFFF] ++ plainOps 9

theorem arm_preserves_buffer_iff_live :
    ∃ (s : NtStatus) (w' : World),
      driverMachine.replay .power sysmemArm lostLoopback (liveBufferWorld 1) = some (s, w') ∧
      (w'.buffer = (liveBufferWorld 1).buffer ↔
        ArmStops (liveBufferWorld 1).ctx 2 ∨
          ∀ i, Probed (loopbackOffsets 0x10000000) i → (liveBufferWorld 1).buffer i = 0) := by
  have hreplay : (driverMachine.replay .power sysmemArm lostLoopback (liveBufferWorld 1)).isSome =
      true := by decide
  obtain ⟨⟨s, w'⟩, hrun⟩ := Option.isSome_iff_exists.mp hreplay
  exact ⟨s, w', hrun, arm_preserves_buffer_iff hrun⟩

/-- A live buffer loses its first byte to an arm. -/
theorem arm_clears_live_buffer :
    ¬ ∀ (t : Tid) (w w' : World) (s : NtStatus),
      Solo driverMachine t sysmemArm w s w' → w'.buffer = w.buffer := by
  intro hclaim
  have hreplay : (driverMachine.replay .power sysmemArm lostLoopback (liveBufferWorld 1)).any
      (fun r => r.2.buffer 0 == 0) = true := by decide
  obtain ⟨s, w', hrun, hzero⟩ := Solo.exists_of_replay hreplay
  have hbyte := congrFun (hclaim _ _ _ _ hrun) 0
  have hzero : w'.buffer 0 = 0 := beq_iff_eq.mp hzero
  rw [hzero] at hbyte
  exact absurd hbyte (by decide)

end TtWind
