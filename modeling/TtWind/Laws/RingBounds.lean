import TtWind.Laws.Rings
import TtWind.Laws.Solo
import TtWind.Driver.Schedule

/-!
# After the queue check

A base and an entry count that the queue check lets through keep every access of a push and a
pop within the ring, whatever the four ring pointers hold. The check does not look at the
alignment of the base, so it is the first access that finds an unaligned ring out, and nothing
of such a ring is ever touched.
-/

set_option autoImplicit false

namespace TtWind

open TtWind.Effect TtWind.Effect.Prog

theorem and_255_toNat (v : UInt32) : (v &&& 0xFF).toNat ≤ 255 := by
  rw [UInt32.toNat_and]
  exact Nat.and_le_right

theorem ringFits_iff {base n : UInt32} (hn : n.toNat ≤ 255) :
    ringFits base n = true ↔
      0x10000000 ≤ base.toNat ∧ base.toNat + 32 + 64 * n.toNat ≤ 0x10080000 := by
  have hbase := base.toNat_lt
  have hsum : (base.toUInt64 + 32 + 2 * n.toUInt64 * 32).toNat = base.toNat + 32 + 64 * n.toNat := by
    simp only [UInt64.toNat_add, UInt64.toNat_mul, UInt32.toNat_toUInt64, UInt64.reduceToNat]
    omega
  have hend : (arcCsmBase.toUInt64 + arcCsmSize.toUInt64).toNat = 0x10080000 := rfl
  have hstart : arcCsmBase.toNat = 0x10000000 := rfl
  simp only [ringFits, Bool.not_eq_true', Bool.or_eq_false_iff, decide_eq_false_iff_not,
    UInt32.lt_iff_toNat_lt, UInt64.lt_iff_toNat_lt, hsum, hend, hstart, Nat.not_lt]

theorem csmRead_never_fails_with_success (a : UInt32) (evs : List Event) :
    ¬ (arcCsmRead32 a).Leads evs (.pure (.error .success)) := by
  intro h
  obtain ⟨-, heq⟩ | ⟨-, v, heq⟩ := answered_read (a := a) (x := .error .success) ⟨evs, h⟩
  · cases heq
  · cases heq

/-- The queue check. -/
theorem located_of_check {base info : UInt32} (hzero : ¬ info &&& 0xFF = 0)
    (hfits : ringFits base (info &&& 0xFF) = true) : Located base (info &&& 0xFF) := by
  have hsmall := and_255_toNat info
  have hin := (ringFits_iff hsmall).mp hfits
  refine ⟨Nat.pos_of_ne_zero fun hnat => hzero ?_, hsmall, hin.1, hin.2⟩
  exact UInt32.toNat_inj.mp hnat

/-- What the queue check lets through lies within the CSM, and has entries. -/
theorem located_of_success {base n : UInt32} {report : ArcReport} {evs : List Event}
    (h : arcLocateQueue.Leads evs (.pure (.success, base, n, report))) : Located base n := by
  unfold arcLocateQueue at h
  obtain ⟨polls, e₁, e₂, rfl, -, h₁⟩ := leads_bind.mp h
  obtain ⟨⟨status, boot⟩, e₃, e₄, rfl, -, h₂⟩ := leads_bind.mp h₁
  dsimp only at h₂
  split at h₂
  · rename_i hbad
    obtain ⟨-, heq⟩ := leads_pure.mp h₂
    cases heq
    exact absurd hbad (by decide)
  obtain ⟨c, e₅, e₆, rfl, -, h₃⟩ := leads_bind.mp h₂
  obtain ⟨qcb, e₇, e₈, rfl, -, h₄⟩ := leads_bind.mp h₃
  obtain ⟨x, e₉, e₁₀, rfl, hread, h₅⟩ := leads_bind.mp h₄
  cases x with
  | error status' =>
    obtain ⟨-, heq⟩ := leads_pure.mp h₅
    cases heq
    exact absurd hread (csmRead_never_fails_with_success _ _)
  | ok base' =>
    obtain ⟨y, e₁₁, e₁₂, rfl, hread', h₆⟩ := leads_bind.mp h₅
    cases y with
    | error status' =>
      obtain ⟨-, heq⟩ := leads_pure.mp h₆
      cases heq
      exact absurd hread' (csmRead_never_fails_with_success _ _)
    | ok info =>
      dsimp only at h₆
      split at h₆
      · cases (leads_pure.mp h₆).2
      split at h₆
      · cases (leads_pure.mp h₆).2
      rename_i hzero hfits
      obtain ⟨-, heq⟩ := leads_pure.mp h₆
      simp only [Prod.mk.injEq, true_and] at heq
      obtain ⟨rfl, rfl, -⟩ := heq
      exact located_of_check hzero (by simpa using hfits)

/-! ## The accesses of a push and of a pop -/

/-- The 32-bit arithmetic of a ring: no division by zero, and no sum or product wraps. -/
structure RingArithmetic (base n : UInt32) : Prop where
  entries : n ≠ 0 ∧ 2 * n ≠ 0 ∧ (2 * n).toNat = 2 * n.toNat
  next : ∀ v : UInt32, v ≠ 0xFFFFFFFF → (v + 1).toNat = v.toNat + 1
  request : ∀ (v : UInt32) (i : Nat), i < 8 →
    (requestSlot base (v % n) + 4 * UInt32.ofNat i).toNat =
      base.toNat + 32 + v.toNat % n.toNat * 32 + 4 * i
  response : ∀ (v : UInt32) (i : Nat), i < 8 →
    (responseSlot base n (v % n) + 4 * UInt32.ofNat i).toNat =
      base.toNat + 32 + n.toNat * 32 + v.toNat % n.toNat * 32 + 4 * i

/-- The accesses lie within the ring `[base, base + 32 + 64 * n)`, the writes are where they
may be, and one is refused exactly if the ring is not aligned. -/
structure RingRun (base n : UInt32) (written : UInt32 → Prop) (evs : List CsmEvent) : Prop where
  inside : ∀ ev ∈ evs, base.toNat ≤ ev.1.addr.toNat ∧
    ev.1.addr.toNat + 4 ≤ base.toNat + 32 + 64 * n.toNat
  writes : ∀ ev ∈ evs, ev.1.isWrite = true → written ev.1.addr
  refused : (∃ ev ∈ evs, CsmEvent.refused ev) ↔ base.toNat % 4 ≠ 0

/-- What a push may write: the words of one slot, and the write pointer. -/
def PushWrites (base : UInt32) (slot : Nat) (a : UInt32) : Prop :=
  a = reqWptr base ∨ ∃ i < 8, a.toNat = base.toNat + 32 + slot * 32 + 4 * i

/-- An access within the ring that was taken, and wrote only where it may. -/
def RingAccess (base n : UInt32) (written : UInt32 → Prop) (ev : CsmEvent) : Prop :=
  (base.toNat ≤ ev.1.addr.toNat ∧ ev.1.addr.toNat + 4 ≤ base.toNat + 32 + 64 * n.toNat) ∧
    (ev.1.isWrite = true → written ev.1.addr) ∧ ¬ CsmEvent.refused ev

theorem ringRun_of_accesses {base n : UInt32} {written : UInt32 → Prop} {evs : List CsmEvent}
    (h4 : base.toNat % 4 = 0) (h : ∀ ev ∈ evs, RingAccess base n written ev) :
    RingRun base n written evs where
  inside ev hev := (h ev hev).1
  writes ev hev := (h ev hev).2.1
  refused := by
    constructor
    · rintro ⟨ev, hev, href⟩
      exact absurd href (h ev hev).2.2
    · intro hne
      exact absurd h4 hne

theorem RingRun.of_reverse {base n : UInt32} {written : UInt32 → Prop} {evs : List CsmEvent}
    (h : RingRun base n written evs.reverse) : RingRun base n written evs where
  inside ev hev := h.inside ev (List.mem_reverse.mpr hev)
  writes ev hev := h.writes ev (List.mem_reverse.mpr hev)
  refused := by simpa using h.refused

section Bounds

variable {base n : UInt32} (hring : Located base n)

include hring

theorem ringArithmetic_of_located : RingArithmetic base n := by
  have hpos := hring.pos
  have hsmall := hring.small
  have hhigh := hring.high
  have htwice := hring.twice_toNat
  have hword : ∀ {a : UInt32} {i : Nat}, a.toNat + 32 ≤ 0x10080000 → i < 8 →
      (a + 4 * UInt32.ofNat i).toNat = a.toNat + 4 * i := by
    intro a i ha hi
    have hi' : (UInt32.ofNat i).toNat = i := UInt32.toNat_ofNat_of_lt (by show i < 2 ^ 32; omega)
    have h4 : (4 : UInt32).toNat = 4 := rfl
    rw [UInt32.toNat_add, UInt32.toNat_mul, hi', h4]
    omega
  constructor
  · refine ⟨?_, ?_, htwice⟩
    · rintro rfl
      exact absurd hpos (by decide)
    · intro hzero
      have hnat : (2 * n).toNat = 0 := by rw [hzero]; rfl
      omega
  · intro v hv
    have hlt := v.toNat_lt
    have hne : v.toNat ≠ 0xFFFFFFFF := fun h => hv (UInt32.toNat_inj.mp h)
    have h1 : (1 : UInt32).toNat = 1 := rfl
    rw [UInt32.toNat_add, h1]
    omega
  · intro v i hi
    have hslot := hring.slot_lt v
    have hstart := hring.requestSlot_toNat hslot
    rw [hword (by omega) hi, hstart, UInt32.toNat_mod]
  · intro v i hi
    have hslot := hring.slot_lt v
    have hstart := hring.responseSlot_toNat hslot
    rw [hword (by omega) hi, hstart, UInt32.toNat_mod]

/-- An access to a header word of the ring. -/
theorem header_access {written : UInt32 → Prop} {o : UInt32} (hoff : o.toNat + 4 ≤ 32)
    {ev : CsmEvent} (haddr : ev.1.addr = base + o) (hw : ev.1.isWrite = true → written ev.1.addr)
    (hok : ¬ CsmEvent.refused ev) : RingAccess base n written ev := by
  refine ⟨?_, hw, hok⟩
  rw [haddr, hring.header_toNat (by omega)]
  omega

theorem PushTrace.run {msg : ArcMsg} {evs : List CsmEvent} {r : NtStatus} (h4 : base.toNat % 4 = 0)
    (h : PushTrace msg base n evs r) :
    ∃ slot < n.toNat, RingRun base n (PushWrites base slot) evs := by
  have hwptr : ∀ {slot : Nat} {x : UInt32},
      RingAccess base n (PushWrites base slot) ⟨.read (reqWptr base), .ok x⟩ := fun {_ _} =>
    header_access hring (by decide) rfl (fun h => by cases h) (fun h => by cases h)
  have hrptr : ∀ {slot : Nat} {x : UInt32},
      RingAccess base n (PushWrites base slot) ⟨.read (reqRptr base), .ok x⟩ := fun {_ _} =>
    header_access hring (by decide) rfl (fun h => by cases h) (fun h => by cases h)
  cases h with
  | writerGone =>
    refine ⟨0, hring.pos, ringRun_of_accesses h4 ?_⟩
    simpa using hwptr
  | readerGone _ =>
    refine ⟨0, hring.pos, ringRun_of_accesses h4 ?_⟩
    simpa using ⟨hwptr, hrptr⟩
  | full _ _ _ =>
    refine ⟨0, hring.pos, ringRun_of_accesses h4 ?_⟩
    simpa using ⟨hwptr, hrptr⟩
  | @pushed w r _ _ _ =>
    have hslot := hring.slot_lt w
    have hstart := hring.requestSlot_toNat hslot
    have hhigh := hring.high
    have hlen : msg.words.length = 8 := by simp [ArcMsg.words]
    refine ⟨(w % n).toNat, hslot, ringRun_of_accesses h4 ?_⟩
    intro ev hev
    rcases List.mem_append.mp hev with hev | hev
    · rcases List.mem_append.mp hev with hev | hev
      · rcases List.mem_cons.mp hev with rfl | hev
        · exact hwptr
        · obtain rfl := List.mem_singleton.mp hev
          exact hrptr
      · obtain ⟨i, hi, b, v, rfl, hb⟩ := mem_wordEvents (by omega) hev
        refine ⟨?_, fun _ => .inr ⟨i, by omega, ?_⟩, fun h => by cases h⟩
        · show base.toNat ≤ b.toNat ∧ b.toNat + 4 ≤ _
          omega
        · show b.toNat = _
          omega
    · obtain rfl := List.mem_singleton.mp hev
      exact header_access hring (o := 0) (by decide) rfl (fun _ => .inl rfl) fun h => by cases h

theorem PopTrace.run {evs : List CsmEvent} {r : Except NtStatus ArcMsg} (h4 : base.toNat % 4 = 0)
    (h : PopTrace base n evs r) : RingRun base n (· = resRptr base) evs := by
  have hrptr : ∀ {x : UInt32}, RingAccess base n (· = resRptr base) ⟨.read (resRptr base), .ok x⟩ :=
    fun {_} => header_access hring (o := 4) (by decide) rfl nofun nofun
  have hwptr : ∀ {x : UInt32}, RingAccess base n (· = resRptr base) ⟨.read (resWptr base), .ok x⟩ :=
    fun {_} => header_access hring (o := 0x14) (by decide) rfl nofun nofun
  refine ringRun_of_accesses h4 ?_
  cases h with
  | readerGone => simpa using hrptr
  | writerGone _ => simpa using ⟨hrptr, hwptr⟩
  | empty _ _ _ => simpa using ⟨hrptr, hwptr⟩
  | @popped w v words _ _ _ hlen =>
    have hslot := hring.slot_lt v
    have hstart := hring.responseSlot_toNat hslot
    have hhigh := hring.high
    intro ev hev
    rcases List.mem_append.mp hev with hev | hev
    · rcases List.mem_append.mp hev with hev | hev
      · rcases List.mem_cons.mp hev with rfl | hev
        · exact hrptr
        · obtain rfl := List.mem_singleton.mp hev
          exact hwptr
      · obtain ⟨i, hi, b, x, rfl, hb⟩ := mem_wordEvents (by omega) hev
        refine ⟨?_, nofun, nofun⟩
        show base.toNat ≤ b.toNat ∧ b.toNat + 4 ≤ _
        omega
    · obtain rfl := List.mem_singleton.mp hev
      exact header_access hring (o := 4) (by decide) rfl (fun _ => rfl) nofun

/-- On a ring that is not aligned, the first access is refused, and is the only one. -/
theorem refused_run {written : UInt32 → Prop} {o : UInt32} (hoff : o.toNat + 4 ≤ 32)
    (h4 : base.toNat % 4 ≠ 0) :
    RingRun base n written [⟨.read (base + o), .error .invalidAddress⟩] where
  inside := by
    intro ev hev
    obtain rfl := List.mem_singleton.mp hev
    show base.toNat ≤ (base + o).toNat ∧ (base + o).toNat + 4 ≤ _
    rw [hring.header_toNat (by omega)]
    omega
  writes := by
    intro ev hev hw
    obtain rfl := List.mem_singleton.mp hev
    cases hw
  refused := ⟨fun _ => h4, fun _ => ⟨_, List.mem_singleton.mpr rfl, rfl⟩⟩

end Bounds

/-! ## The driver's push and pop -/

/-- On a ring that is not aligned nothing is touched, and the first access fails. -/
theorem unaligned_push {base n : UInt32} {msg : ArcMsg} {evs : List CsmEvent} {r : NtStatus}
    (hrej : csmRejects (reqWptr base) = true) (h : (Csm.tryPush msg base n).Leads evs (.pure r))
    (hans : ∀ ev ∈ evs, CsmEvent.answered ev) :
    evs = [⟨.read (reqWptr base), .error .invalidAddress⟩] ∧ r = .invalidAddress := by
  obtain ⟨x, e₁, e₂, rfl, hwptr, h₁⟩ := leads_bind.mp h
  obtain ⟨rfl, rfl⟩ := readRingPtr_refused hrej hwptr fun ev hev => hans ev (List.mem_append_right _ hev)
  obtain ⟨rfl, rfl⟩ := leads_pure.mp h₁
  exact ⟨rfl, rfl⟩

theorem unaligned_pop {base n : UInt32} {evs : List CsmEvent} {r : Except NtStatus ArcMsg}
    (hrej : csmRejects (resRptr base) = true) (h : (Csm.tryPop base n).Leads evs (.pure r))
    (hans : ∀ ev ∈ evs, CsmEvent.answered ev) :
    evs = [⟨.read (resRptr base), .error .invalidAddress⟩] ∧ r = .error .invalidAddress := by
  obtain ⟨x, e₁, e₂, rfl, hrptr, h₁⟩ := leads_bind.mp h
  obtain ⟨rfl, rfl⟩ := readRingPtr_refused hrej hrptr fun ev hev => hans ev (List.mem_append_right _ hev)
  obtain ⟨rfl, rfl⟩ := leads_pure.mp h₁
  exact ⟨rfl, rfl⟩

/-- A refused access is none of the device. -/
theorem serves_refused {a : UInt32} {below : List Event} (hrej : csmRejects a = true)
    (h : CsmServes [⟨.read a, .error .invalidAddress⟩] below) : below = [] := by
  have hrun : (arcCsmRead32 a).Leads below (.pure (.error .invalidAddress)) :=
    (serves_singleton (S := CsmSig)).mp h
  unfold arcCsmRead32 at hrun
  rw [if_pos hrej] at hrun
  exact (leads_pure.mp hrun).1

/-- After the queue check, a push and a pop do not stray. For every base and entry count that
TtWindArcLocateQueue answers with success, and whatever the memory of the ring holds: the slot
arithmetic is exact, every CSM access of TtWindArcTryPush and TtWindArcTryPop is within the ring,
a push writes within one request slot and its write pointer, a pop writes its read pointer. An
access is refused exactly if the base is not a multiple of 4; then it is the first one, and no
word of the device is touched. -/
theorem ring_accesses_stay {base n : UInt32} {report : ArcReport} {before : List Event}
    (h : arcLocateQueue.Leads before (.pure (.success, base, n, report))) :
    RingArithmetic base n ∧
    (∀ (msg : ArcMsg) (below : List Event) (r : NtStatus), (arcTryPush msg base n).Leads below (.pure r) →
      (∃ evs, (Csm.tryPush msg base n).Leads evs (.pure r) ∧ CsmServes evs below ∧
        ∃ slot < n.toNat, RingRun base n (PushWrites base slot) evs) ∧
      (base.toNat % 4 ≠ 0 → below = [] ∧ r = .invalidAddress)) ∧
    ∀ (below : List Event) (r : Except NtStatus ArcMsg), (arcTryPop base n).Leads below (.pure r) →
      (∃ evs, (Csm.tryPop base n).Leads evs (.pure r) ∧ CsmServes evs below ∧
        RingRun base n (· = resRptr base) evs) ∧
      (base.toNat % 4 ≠ 0 → below = [] ∧ r = .error .invalidAddress) := by
  have hring := located_of_success h
  refine ⟨ringArithmetic_of_located hring, ?_, ?_⟩
  · intro msg below r hpush
    rw [← arcTryPush_eq, leads_handle] at hpush
    obtain ⟨evs, hpush, hserves⟩ := hpush
    have hans : ∀ ev ∈ evs, CsmEvent.answered ev := fun ev hev =>
      let ⟨run, hrun, _⟩ := hserves.answers ev hev
      ⟨run, hrun⟩
    by_cases h4 : base.toNat % 4 = 0
    · obtain ⟨slot, hslot, hrun⟩ := (tryPush_trace hring h4 hpush hans).run hring h4
      refine ⟨⟨evs, hpush, hserves, slot, hslot, ?_⟩, fun hne => absurd h4 hne⟩
      exact hrun.of_reverse
    · have hrej : csmRejects (reqWptr base) = true :=
        (hring.header_rejects (o := 0) (by decide) (by decide)).mpr h4
      obtain ⟨rfl, rfl⟩ := unaligned_push hrej hpush hans
      exact ⟨⟨_, hpush, hserves, 0, hring.pos, refused_run hring (o := 0) (by decide) h4⟩,
        fun _ => ⟨serves_refused hrej hserves, rfl⟩⟩
  · intro below r hpop
    rw [← arcTryPop_eq, leads_handle] at hpop
    obtain ⟨evs, hpop, hserves⟩ := hpop
    have hans : ∀ ev ∈ evs, CsmEvent.answered ev := fun ev hev =>
      let ⟨run, hrun, _⟩ := hserves.answers ev hev
      ⟨run, hrun⟩
    by_cases h4 : base.toNat % 4 = 0
    · have hrun := (tryPop_trace hring h4 hpop hans).run hring h4
      exact ⟨⟨evs, hpop, hserves, hrun.of_reverse⟩, fun hne => absurd h4 hne⟩
    · have hrej : csmRejects (resRptr base) = true :=
        (hring.header_rejects (o := 4) (by decide) (by decide)).mpr h4
      obtain ⟨rfl, rfl⟩ := unaligned_pop hrej hpop hans
      exact ⟨⟨_, hpop, hserves, refused_run hring (o := 4) (by decide) h4⟩,
        fun _ => ⟨serves_refused hrej hserves, rfl⟩⟩

/-- Finding a queue of `n` entries at a base: the first route is ready, and the control block
is at the start of the CSM. -/
def locateChoices (base n : UInt32) : List Choice :=
  [.count 0] ++ plainOps 6 ++ [.word 1] ++ plainOps 8 ++ [.word 0x10000000] ++ plainOps 5 ++
    [.word base] ++ plainOps 5 ++ [.word n]

/-- A queue found at 0x10000000 with two entries: what is computed of it stays within it. -/
theorem ring_accesses_stay_two_entries :
    ∃ report before, arcLocateQueue.Leads before (.pure (.success, 0x10000000, 2, report)) ∧
      RingArithmetic 0x10000000 2 := by
  have hfound : (driverMachine.replay .ioctl arcLocateQueue (locateChoices 0x10000000 2) {}).any
      (fun r => r.1.1 == .success && r.1.2.1 == 0x10000000 && r.1.2.2.1 == 2) = true := by decide
  obtain ⟨⟨status, base, n, report⟩, w', hsolo, htest⟩ := Effect.Solo.exists_of_replay hfound
  simp only [Bool.and_eq_true, beq_iff_eq] at htest
  obtain ⟨⟨rfl, rfl⟩, rfl⟩ := htest
  obtain ⟨before, hleads⟩ := hsolo.leads
  exact ⟨report, before, hleads, (ring_accesses_stay hleads).1⟩

/-- A queue found at 0x10000001: the first access of a push is refused. -/
theorem unaligned_ring_refused :
    ∃ report before, arcLocateQueue.Leads before (.pure (.success, 0x10000001, 1, report)) ∧
      (arcTryPush {} 0x10000001 1).Leads [] (.pure .invalidAddress) ∧
      (Csm.tryPush {} 0x10000001 1).Leads [⟨.read 0x10000001, .error .invalidAddress⟩]
        (.pure .invalidAddress) := by
  have hfound : (driverMachine.replay .ioctl arcLocateQueue (locateChoices 0x10000001 1) {}).any
      (fun r => r.1.1 == .success && r.1.2.1 == 0x10000001 && r.1.2.2.1 == 1) = true := by decide
  obtain ⟨⟨status, base, n, report⟩, w', hsolo, htest⟩ := Effect.Solo.exists_of_replay hfound
  simp only [Bool.and_eq_true, beq_iff_eq] at htest
  obtain ⟨⟨rfl, rfl⟩, rfl⟩ := htest
  obtain ⟨before, hleads⟩ := hsolo.leads
  refine ⟨report, before, hleads, ?_, ?_⟩
  · have hpush : arcTryPush {} 0x10000001 1 = .pure .invalidAddress := rfl
    rw [hpush]
    exact .start
  · exact .step (S := CsmSig) _ .start

end TtWind
