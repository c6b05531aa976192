import TtWind.Laws.Calls
import TtWind.Laws.Allocator
import TtWind.Laws.Extent
import TtWind.Laws.Pack

/-!
# What the window registers hold

A log of the run keeps the bytes of the TLB register block as the driver's writes leave them,
whatever they were at first, and what was last asked of each window. A user window's registers
are written only by the CONFIGURE_TLB of its owner, all of them in one StateLock section, and
every other write is to the kernel window's own registers; so outside that section the
registers hold what was last asked.
-/

set_option autoImplicit false

namespace TtWind

open TtWind.Effect TtWind.Effect.Prog TtWind.Effect.Protocol

/-! ## The register block -/

/-- The window a CONFIGURE_TLB names. -/
def Request.tlbId (r : Request) : Nat := (UInt32.ofNat (leNat r.inBuf 0 4)).toNat

/-- The configuration a CONFIGURE_TLB asks for. -/
def Request.tlbConfig (r : Request) : NocTlbConfig where
  addr := UInt64.ofNat (leNat r.inBuf 8 8)
  xEnd := UInt16.ofNat (leNat r.inBuf (8 + 8) 2)
  yEnd := UInt16.ofNat (leNat r.inBuf (8 + 10) 2)
  xStart := UInt16.ofNat (leNat r.inBuf (8 + 12) 2)
  yStart := UInt16.ofNat (leNat r.inBuf (8 + 14) 2)
  noc := UInt8.ofNat (leNat r.inBuf (8 + 16) 1)
  mcast := UInt8.ofNat (leNat r.inBuf (8 + 17) 1)
  ordering := UInt8.ofNat (leNat r.inBuf (8 + 18) 1)
  linked := UInt8.ofNat (leNat r.inBuf (8 + 19) 1)
  staticVc := UInt8.ofNat (leNat r.inBuf (8 + 20) 1)

/-- The bytes of the register block, and the configuration last asked of each window. -/
structure Windows where
  regs : Nat → UInt8
  asked : Nat → Option NocTlbConfig

namespace Windows

/-- The 12 bytes that steer a window. -/
def image (g : Windows) (i : Nat) : Nat := leNat g.regs (i * tlbRegSize) tlbRegSize

/-- The strided register of a window. -/
def strided (g : Windows) (i : Nat) : Nat :=
  leNat g.regs (tlbStridedRegsOffset + i * tlbStridedRegSize) tlbStridedRegSize

/-- The registers of the window read as the configuration by the documented layout, what is
not exposed is 0, and so is the strided register of a window that has one. -/
structure Holds (g : Windows) (i : Nat) (cfg : NocTlbConfig) : Prop where
  decodes : unpackTlb2M (g.image i) = cfg
  rest : g.image i < 2 ^ 74
  strided : i < tlbStridedCount → g.strided i = 0

/-- The image of a configuration in the three registers, with the strided one 0, holds it. -/
theorem holds_of_regs {g : Windows} {i : Nat} {cfg : NocTlbConfig} (hr : cfg.inRange = true)
    (ha : cfg.addr &&& (tlb2mSize - 1) = 0)
    (h0 : leNat g.regs (i * tlbRegSize) 4 = (packTlb2M cfg).1.toUInt32.toNat)
    (h1 : leNat g.regs (i * tlbRegSize + 4) 4 = ((packTlb2M cfg).1 >>> 32).toUInt32.toNat)
    (h2 : leNat g.regs (i * tlbRegSize + 8) 4 = (packTlb2M cfg).2.toNat)
    (hstrided : i < tlbStridedCount → g.strided i = 0) : g.Holds i cfg := by
  have hlo := (packTlb2M cfg).1.toNat_lt
  have himage : g.image i = TtWind.image (packTlb2M cfg) := by
    have hsplit : g.image i = leNat g.regs (i * tlbRegSize) (4 + (4 + 4)) := rfl
    have hshift : (32 : UInt64).toNat % 64 = 32 := rfl
    rw [hsplit, leNat_add, leNat_add, h0, h1, h2, UInt64.toNat_toUInt32, UInt64.toNat_toUInt32,
      UInt64.toNat_shiftRight, hshift, Nat.shiftRight_eq_div_pow, TtWind.image]
    omega
  refine ⟨?_, ?_, hstrided⟩
  · rw [himage, unpack_pack hr ha]
  · rw [himage]
    exact packTlb2M_lt _

end Windows

/-- The log of the window registers: a write through the pointer to the block stores its four
bytes, and one of a request under StateLock is to configure the window the request names. -/
def windowLog : Observer DriverSig Tid World Windows where
  initial _ g := g.asked = fun _ => none
  note
    | t, .mmioWrite p off v, _, w, g =>
      if p = w.ctx.tlbRegs then
        { regs := leStore g.regs off 4 v.toNat
          asked := if t = .ioctl ∧ w.stateLock = some .ioctl then
            Function.update g.asked w.req.tlbId (some w.req.tlbConfig) else g.asked }
      else g
    | _, _, _, _, g => g

/-- Registers of different windows are apart, and all of them lie in the block. -/
theorem windowReg_apart {i j off off' : Nat} (hi : i < tlb2mCount) (hj : j < tlb2mCount)
    (hij : i ≠ j) (h : WindowReg i off) (h' : WindowReg j off') : off + 4 ≤ off' ∨ off' + 4 ≤ off := by
  simp only [WindowReg, tlbRegSize, tlbStridedRegSize, tlbStridedRegsOffset, tlbStridedCount,
    tlb2mCount, tlb4gCount] at *
  omega

theorem windowReg_inside {i off : Nat} (hi : i < tlb2mCount) (h : WindowReg i off) :
    off + 4 ≤ tlbRegsLen := by
  simp only [WindowReg, tlbRegSize, tlbStridedRegSize, tlbStridedRegsOffset, tlbStridedCount,
    tlb2mCount, tlb4gCount, tlbRegsLen] at *
  omega

/-- The registers of a window are the same bytes. -/
def SameWindow (g g' : Windows) (i : Nat) : Prop :=
  ∀ off, WindowReg i off → ∀ b, off ≤ b → b < off + 4 → g'.regs b = g.regs b

namespace SameWindow

variable {g g' : Windows} {i : Nat} (h : SameWindow g g' i)

include h

theorem image : g'.image i = g.image i := by
  apply leNat_congr
  intro b hlo hhi
  simp only [tlbRegSize] at hlo hhi
  rcases Nat.lt_or_ge b (i * 12 + 4) with hb | hb
  · exact h (i * 12) (.inl rfl) b hlo hb
  · rcases Nat.lt_or_ge b (i * 12 + 8) with hb' | hb'
    · exact h (i * 12 + 4) (.inr (.inl rfl)) b hb hb'
    · exact h (i * 12 + 8) (.inr (.inr (.inl rfl))) b hb' hhi

theorem strided (hi : i < tlbStridedCount) : g'.strided i = g.strided i :=
  leNat_congr (h _ (.inr (.inr (.inr ⟨hi, rfl⟩))))

theorem holds {cfg : NocTlbConfig} (hg : g.Holds i cfg) : g'.Holds i cfg := by
  refine ⟨?_, ?_, fun hi => ?_⟩
  · rw [h.image]
    exact hg.decodes
  · rw [h.image]
    exact hg.rest
  · rw [h.strided hi]
    exact hg.strided hi

end SameWindow

/-- A write to a register of one window leaves the registers of the others. -/
theorem sameWindow_store {g g' : Windows} {i j off v : Nat} (hi : i < tlb2mCount) (hj : j < tlb2mCount)
    (hij : i ≠ j) (hoff : WindowReg i off) (hregs : g'.regs = leStore g.regs off 4 v) :
    SameWindow g g' j := by
  intro off' hoff' b hlo hhi
  have hapart := windowReg_apart hi hj hij hoff hoff'
  rw [hregs]
  exact leStore_of_not_mem (by omega)

/-! ## The protocol -/

/-- Every window asked for is a user window, and holds what was asked of it, but for the one a
request is writing. -/
structure SteeringInv (L : Tid → Prop) (x : World × Windows) : Prop where
  held : x.1.stateLock = some .ioctl → L .ioctl
  user : ∀ i cfg, x.2.asked i = some cfg → i < kernelTlbIndex
  holds : ∀ i cfg, x.2.asked i = some cfg → (x.1.stateLock = some .ioctl → i ≠ x.1.req.tlbId) →
    x.2.Holds i cfg

/-- What the threads beside a request leave to it. -/
structure Beside (x y : World × Windows) : Prop where
  req : y.1.req = x.1.req
  hist : y.1.hist .ioctl = x.1.hist .ioctl
  tlbRegs : y.1.ctx.tlbRegs = x.1.ctx.tlbRegs
  lock : x.1.stateLock = some .ioctl →
    y.1.stateLock = some .ioctl ∧ y.1.ctx.tlbOwner = x.1.ctx.tlbOwner
  free : x.1.stateLock ≠ some .ioctl → y.1.stateLock ≠ some .ioctl
  asked : y.2.asked = x.2.asked
  regs : ∀ i < kernelTlbIndex, SameWindow x.2 y.2 i

/-- The call has taken StateLock for itself, as only CONFIGURE_TLB does. -/
def TookState (evs : List Event) : Prop := (⟨.acquire .state, ()⟩ : Event) ∈ evs

/-- A request writes a register of the window it names, which its handle owns. -/
def Steers (x : World × Windows) (off : Nat) : Prop :=
  ∃ fo, x.1.req.fileObject = some fo ∧ x.1.ctx.tlbOwner x.1.req.tlbId = some fo ∧
    WindowReg x.1.req.tlbId off ∧ TookState (x.1.hist .ioctl)

/-- A register of the block that is written is the kernel window's own, or one of the window
that a request configures for its owner. A request that took StateLock succeeds only when its
window was asked what it asks. -/
def steering : Protocol DriverSig Tid (World × Windows) where
  allow t o x := Disciplined t o x.1 ∧ Placed t o x.1
  inv := SteeringInv
  known L x := MmioInv L x.1 ∧ x.1.ctx.AllocatorInv
  rely t x y := t = .ioctl → Beside x y
  guar t x y := t ≠ .ioctl → t ≠ .hardware → Beside x y
  pre t o x :=
    match o with
    | .mmioWrite p off _ => p = x.1.ctx.tlbRegs →
        WindowReg kernelTlbIndex off ∧ x.1.arcLock = some t ∨ t = .ioctl ∧ Steers x off
    | .complete .success _ => t = .ioctl → TookState (x.1.hist .ioctl) →
        x.1.stateLock ≠ some .ioctl ∧ x.2.asked x.1.req.tlbId = some x.1.req.tlbConfig
    | _ => True
  post t x := t = .ioctl → x.1.stateLock ≠ some .ioctl

theorem Beside.refl (x : World × Windows) : Beside x x :=
  ⟨rfl, rfl, rfl, fun h => ⟨h, rfl⟩, id, rfl, fun _ _ _ _ _ _ _ => rfl⟩

theorem Beside.trans {x y z : World × Windows} (h₁ : Beside x y) (h₂ : Beside y z) : Beside x z where
  req := h₂.req.trans h₁.req
  hist := h₂.hist.trans h₁.hist
  tlbRegs := h₂.tlbRegs.trans h₁.tlbRegs
  lock hl := by
    obtain ⟨hl', ho⟩ := h₁.lock hl
    obtain ⟨hl'', ho'⟩ := h₂.lock hl'
    exact ⟨hl'', ho'.trans ho⟩
  free hl := h₂.free (h₁.free hl)
  asked := h₂.asked.trans h₁.asked
  regs i hi off hoff b hlo hhi := (h₂.regs i hi off hoff b hlo hhi).trans (h₁.regs i hi off hoff b hlo hhi)

theorem steering_steady : steering.Steady where
  refl _ x _ := .refl x
  trans _ _ _ _ h₁ h₂ ht := (h₁ ht).trans (h₂ ht)

/-! ## Steps outside the section of CONFIGURE_TLB -/

/-- The operation is not one of the section: it writes registers only for a thread at work,
it does not change the request under the section, and it is no request's that holds the lock. -/
structure Aside (t : Tid) (o : Op) (x : World × Windows) : Prop where
  works : (∃ p off v, o = .mmioWrite p off v) → t.Works
  request : o.writesRequest → x.1.stateLock ≠ some .ioctl
  lock : t = .ioctl → ¬ o.movesLock .state ∧ x.1.stateLock ≠ some .ioctl

/-- Outside the section, a write through the pointer to the block is to the kernel window's
registers: the other blocks are mapped elsewhere. -/
theorem Aside.kernel {t : Tid} {p : IoPtr} {off : Nat} {v : UInt32} {x : World × Windows}
    {L : Tid → Prop} (ho : Aside t (.mmioWrite p off v) x) (hl : L t) (hinv : MmioInv L x.1)
    (ha : steering.allow t (.mmioWrite p off v) x) (hp : p = x.1.ctx.tlbRegs) :
    WindowReg kernelTlbIndex off ∧ x.1.arcLock = some t := by
  have hready := ready_of_works (ho.works ⟨_, _, _, rfl⟩) hl hinv
  obtain ⟨hdisc, hplaced⟩ := ha
  obtain ⟨-, ⟨m, -, hm⟩, -⟩ := hdisc p off rfl
  have hne : x.1.ctx.ptr .tlbRegs ≠ none := by
    show x.1.ctx.tlbRegs ≠ none
    rw [← hp, ← hm]
    exact Option.some_ne_none _
  have hother : ∀ b, p = x.1.ctx.ptr b → b = .tlbRegs := fun b hb =>
    (hready.apart .tlbRegs b (hp.symm.trans hb) hne).symm
  rcases hplaced with ⟨hheld, ⟨-, hoff⟩ | hb | hb | ⟨hb, -⟩⟩ | ⟨ht, hlock, -⟩
  · exact ⟨hoff, hheld⟩
  · cases hother _ hb
  · cases hother _ hb
  · cases hother _ hb
  · exact absurd hlock (ho.lock ht).2

/-- What is seen of a step that writes no user window. -/
theorem aside_step {t : Tid} {o : Op} {e : Choice} {x y : World × Windows} {a : o.Ans}
    {L : Tid → Prop} (ho : Aside t o x) (hl : L t) (hknown : MmioInv L x.1) (hinv : SteeringInv L x)
    (ha : steering.allow t o x) (he : (driverMachine.observe windowLog).exec t o e x = some (a, y)) :
    SteeringInv L y ∧ y.2.asked = x.2.asked ∧ (∀ i < kernelTlbIndex, SameWindow x.2 y.2 i) ∧
      (x.1.stateLock ≠ some .ioctl → y.1.stateLock ≠ some .ioctl) := by
  obtain ⟨he, -, hnote⟩ := watched_exec he
  have hf := World.exec_frame he
  have hseen : y.2.asked = x.2.asked ∧ ∀ i < kernelTlbIndex, SameWindow x.2 y.2 i := by
    have hsame : y.2 = x.2 → y.2.asked = x.2.asked ∧ ∀ i < kernelTlbIndex, SameWindow x.2 y.2 i := by
      intro h
      exact ⟨by rw [h], fun i _ _ _ _ _ _ => by rw [h]⟩
    cases o with
    | mmioWrite p off v =>
      by_cases hp : p = x.1.ctx.tlbRegs
      · have hoff := (ho.kernel hl hknown ha hp).1
        have hio : ¬ (t = .ioctl ∧ x.1.stateLock = some .ioctl) := fun h => (ho.lock h.1).2 h.2
        simp only [windowLog, if_pos hp, if_neg hio] at hnote
        refine ⟨by rw [hnote], fun i hi => ?_⟩
        have hcount : i < tlb2mCount := Nat.lt_trans hi (by decide)
        exact sameWindow_store (i := kernelTlbIndex) (by decide) hcount (Nat.ne_of_gt hi) hoff (by rw [hnote])
      · simp only [windowLog, if_neg hp] at hnote
        exact hsame hnote
    | _ => exact hsame hnote
  have hlock : y.1.stateLock = some .ioctl → x.1.stateLock = some .ioctl := by
    intro hy
    by_cases hm : o.movesLock .state
    · have hne : t ≠ .ioctl := fun ht => (ho.lock ht).1 hm
      obtain ⟨w₁, hs, hw⟩ := World.exec_step he
      rw [hw] at hy
      cases o with
      | acquire l =>
        obtain rfl : l = .state := hm
        simp only [World.step, Option.ite_none_right_eq_some, Option.some.injEq, Prod.mk.injEq] at hs
        obtain ⟨-, -, rfl⟩ := hs
        exact absurd (Option.some.inj hy) hne
      | release l =>
        obtain rfl : l = .state := hm
        simp only [World.step, Option.ite_none_right_eq_some, Option.some.injEq, Prod.mk.injEq] at hs
        obtain ⟨-, -, rfl⟩ := hs
        cases hy
      | _ => exact hm.elim
    · rwa [hf.stateLock hm] at hy
  refine ⟨⟨fun hy => hinv.held (hlock hy), fun i cfg hi => ?_, fun i cfg hi hother => ?_⟩, hseen.1,
    hseen.2, fun hx hy => hx (hlock hy)⟩
  · exact hinv.user i cfg (hseen.1 ▸ hi)
  · have hi : x.2.asked i = some cfg := hseen.1 ▸ hi
    refine (hseen.2 i (hinv.user i cfg hi)).holds (hinv.holds i cfg hi fun hx => ?_)
    -- the section goes on, and its request is the same
    have hreq : y.1.req = x.1.req := hf.req fun hw => ho.request hw hx
    have hy : y.1.stateLock = some .ioctl :=
      World.exec_holder (l := .state) he (fun h => (ho.lock h.symm).2 hx) hx
    exact hreq ▸ hother hy

/-- Outside the section, what an operation must meet. -/
theorem Aside.pre {t : Tid} {o : Op} {x : World × Windows} {L : Tid → Prop} (ho : Aside t o x)
    (hl : L t) (hinv : MmioInv L x.1) (ha : steering.allow t o x)
    (hdone : t = .ioctl → ¬ TookState (x.1.hist .ioctl)) : steering.pre t o x := by
  cases o with
  | mmioWrite p off v => exact fun hp => .inl (ho.kernel hl hinv ha hp)
  | complete s n =>
    cases s with
    | success => exact fun ht htook => absurd htook (hdone ht)
    | _ => trivial
  | _ => trivial

/-- A step of another thread, as a request sees it. -/
theorem aside_beside {t : Tid} {o : Op} {e : Choice} {x y : World × Windows} {a : o.Ans}
    {L : Tid → Prop} (hio : t ≠ .ioctl) (hhw : t ≠ .hardware) (hreq : ¬ o.writesRequest)
    (ho : Aside t o x) (hl : L t) (hknown : MmioInv L x.1) (hinv : SteeringInv L x)
    (ha : steering.allow t o x) (he : (driverMachine.observe windowLog).exec t o e x = some (a, y)) :
    Beside x y := by
  obtain ⟨-, hasked, hregs, hfree⟩ := aside_step ho hl hknown hinv ha he
  obtain ⟨he, -, -⟩ := watched_exec he
  have hf := World.exec_frame he
  refine ⟨hf.req hreq, ?_, ?_, fun hx => ⟨World.exec_holder (l := .state) he (Ne.symm hio) hx, ?_⟩, hfree,
    hasked, hregs⟩
  · rw [hf.hist, Function.update_of_ne (Ne.symm hio)]
  · show y.1.ctx.ptr .tlbRegs = x.1.ctx.ptr .tlbRegs
    have hcard : y.1.ctx.card = x.1.ctx.card := by
      rw [hf.ctx]
      cases o with
      | store f => exact (ha.2.same hhw).1
      | locked s =>
        rw [Op.effect, Section.run_frame x.1.ctx s]
        rfl
      | _ => rfl
    have hptr : y.1.ctx.ptr = x.1.ctx.ptr := congrArg Card.ptr hcard
    rw [hptr]
  · rw [hf.ctx]
    cases o with
    | store f => exact (ha.2.same hhw).2
    | locked s =>
      -- a section waits for the lock
      obtain ⟨w₁, hs, -⟩ := World.exec_step he
      simp [World.step, hx] at hs
    | _ => rfl

/-- A program of a thread that is not a request's stays outside the section. -/
theorem bystander_steering {t : Tid} (hio : t ≠ .ioctl) {K : Op → Prop}
    (hreq : t ≠ .hardware → ∀ o, K o → ¬ o.writesRequest)
    (hworks : ∀ o, K o → (∃ p off v, o = .mmioWrite p off v) → t.Works) {α : Type} {p : Drv α}
    (hp : p.Only K) : steering.Keeps (driverMachine.observe windowLog) t (fun _ => True) p := by
  have haside : ∀ o, K o → ∀ (x : World × Windows) (L : Tid → Prop), L t → MmioInv L x.1 →
      SteeringInv L x → Aside t o x := by
    intro o ho x L hl hknown hinv
    refine ⟨hworks o ho, fun hw hx => ?_, fun ht => absurd ht hio⟩
    by_cases hhw : t = .hardware
    · exact (hknown.alone (hhw ▸ hl)).1 (hinv.held hx)
    · exact hreq hhw o ho hw
  refine Keeps.of_within_known (R := steering) (Stable.true t) (fun o ho x L _ hl hinv hknown ha =>
    (haside o ho x L hl hknown.1 hinv).pre hl hknown.1 ha fun ht => absurd ht hio) ?_ hp
  intro o ho x L e a y _ hl hinv hknown ha he
  have hoa := haside o ho x L hl hknown.1 hinv
  refine ⟨(aside_step hoa hl hknown.1 hinv ha he).1, fun _ hhw => ?_, trivial, trivial⟩
  exact aside_beside hio hhw (hreq hhw o ho) hoa hl hknown.1 hinv ha he

/-! ## Requests that do not configure -/

theorem tookState_cons {o : Op} {a : o.Ans} {evs : List Event} (h : TookState (⟨o, a⟩ :: evs))
    (ho : ¬ o.movesLock .state) : TookState evs := by
  rcases List.mem_cons.mp h with heq | h
  · obtain rfl : Op.acquire .state = o := congrArg Sigma.fst heq
    exact absurd rfl ho
  · exact h

/-- A request that has not taken StateLock. -/
def Unheld (x : World × Windows) : Prop :=
  x.1.stateLock ≠ some .ioctl ∧ ¬ TookState (x.1.hist .ioctl)

theorem stable_unheld : steering.Stable .ioctl Unheld := by
  intro x y hr h
  have hb : Beside x y := hr rfl
  refine ⟨hb.free h.1, ?_⟩
  rw [hb.hist]
  exact h.2

theorem Unheld.aside {o : Op} {x : World × Windows} (h : Unheld x) (ho : ¬ o.movesLock .state) :
    Aside .ioctl o x := ⟨fun _ => .inl rfl, fun _ => h.1, fun _ => ⟨ho, h.1⟩⟩

theorem unheld_step {o : Op} {e : Choice} {x y : World × Windows} {a : o.Ans} {L : Tid → Prop}
    (ho : ¬ o.movesLock .state) (hx : Unheld x) (hl : L .ioctl) (hknown : MmioInv L x.1)
    (hinv : SteeringInv L x) (ha : steering.allow .ioctl o x)
    (he : (driverMachine.observe windowLog).exec .ioctl o e x = some (a, y)) :
    SteeringInv L y ∧ steering.guar .ioctl x y ∧ Unheld y := by
  obtain ⟨hinv', -, -, hfree⟩ := aside_step (hx.aside ho) hl hknown hinv ha he
  have hf := World.exec_frame (watched_exec he).1
  refine ⟨hinv', fun h => absurd rfl h, hfree hx.1, fun htook => hx.2 (tookState_cons (o := o) (a := a) ?_ ho)⟩
  rw [hf.hist, Function.update_self] at htook
  exact htook

theorem unheld_keeps {α : Type} {p : Drv α} (hp : p.Only fun o : Op => ¬ o.movesLock .state) :
    steering.Keeps (driverMachine.observe windowLog) .ioctl Unheld p := by
  refine Keeps.of_within_known (R := steering) stable_unheld (fun o ho x L hx hl _ hknown ha =>
    (hx.aside ho).pre hl hknown.1 ha fun _ => hx.2) ?_ hp
  intro o ho x L e a y hx hl hinv hknown ha he
  obtain ⟨hinv', hguar, hy⟩ := unheld_step ho hx hl hknown.1 hinv ha he
  exact ⟨hinv', hguar, hy, trivial⟩

/-- Only CONFIGURE_TLB operates StateLock. -/
theorem evtIoDeviceControl_leavesState (fileObject : Option FileObject) {code : Ioctl}
    (hcode : code ≠ .configureTlb) :
    (evtIoDeviceControl fileObject code).Only fun o : Op => ¬ o.movesLock .state := by
  have hplain : ∀ o : Op, o.plain → ¬ o.movesLock .state := by
    intro o ho
    cases o <;> first | exact id | exact (ho : False).elim
  -- the other footprints operate ArcLock at most
  have hlock : ∀ {K : Op → Prop}, (∀ l, K (.acquire l) ∨ K (.release l) → l = .arc) →
      ∀ o, K o → ¬ o.movesLock .state := by
    intro K hK o ho hm
    cases o with
    | acquire l =>
      obtain rfl : l = .state := hm
      cases hK .state (.inl ho)
    | release l =>
      obtain rfl : l = .state := hm
      cases hK .state (.inr ho)
    | _ => exact hm
  have hreset : ∀ o, resetFoot (fun _ => True) o → ¬ o.movesLock .state :=
    hlock fun _ h => h.elim id id
  refine evtIoDeviceControl_only hplain fileObject code ?_
  by_cases hr : code = .resetDevice
  · subst hr
    exact ((resetDevice_only trivial trivial fileObject).mono hreset).bind fun _ => trivial
  · exact ioctlHandler_within (hlock fun _ h => h.elim id id) (hlock fun _ h => h.elim id id)
      (fun _ => recoverReset_resetFoot.mono hreset) hr fun h => absurd h hcode

/-! ## CONFIGURE_TLB -/

section Configure

variable {r : Request} {α : Type} {Q : α → World × Windows → Prop}

/-- The request is `r`, and it has not taken StateLock. -/
def Reading (r : Request) (x : World × Windows) : Prop := x.1.req = r ∧ Unheld x

theorem stable_reading : steering.Stable .ioctl (Reading r) := by
  intro x y hr h
  have hb : Beside x y := hr rfl
  exact ⟨hb.req.trans h.1, stable_unheld x y hr h.2⟩

theorem reading_keeps {p : Drv α} (hp : p.Only fun o : Op => o.plain ∧ ¬ o.writesRequest) :
    steering.Keeps (driverMachine.observe windowLog) .ioctl (Reading r) p := by
  have hlock : ∀ o : Op, o.plain → ¬ o.movesLock .state := by
    intro o ho
    cases o <;> first | exact id | exact (ho : False).elim
  refine Keeps.of_within_known (R := steering) stable_reading (fun o ho x L hx hl _ hknown ha =>
    (hx.2.aside (hlock o ho.1)).pre hl hknown.1 ha fun _ => hx.2.2) ?_ hp
  intro o ho x L e a y hx hl hinv hknown ha he
  obtain ⟨hinv', hguar, hy⟩ := unheld_step (hlock o ho.1) hx.2 hl hknown.1 hinv ha he
  exact ⟨hinv', hguar, ⟨((World.exec_frame (watched_exec he).1).req ho.2).trans hx.1, hy⟩, trivial⟩

/-- A field of the request is read. -/
theorem read_steering {off len : Nat} {k : Nat → Drv α}
    (hk : steering.Triple (driverMachine.observe windowLog) .ioctl (Reading r)
      (k (leNat r.inBuf off len)) Q) :
    steering.Triple (driverMachine.observe windowLog) .ioctl (Reading r) (.vis (.inField off len) k) Q := by
  refine Triple.vis_known (I := fun v x => Reading r x ∧ v = leNat r.inBuf off len) stable_reading
    (fun _ _ _ _ _ _ _ => trivial) ?_ fun v => ?_
  · intro x L e v y hx hl hinv hknown ha he
    obtain ⟨hinv', hguar, hy⟩ := unheld_step (o := .inField off len) id hx.2 hl hknown.1 hinv ha he
    have he := (watched_exec he).1
    obtain ⟨w₁, hs, -⟩ := World.exec_step he
    obtain ⟨rfl, -⟩ := Prod.mk.inj (Option.some.inj hs)
    exact ⟨hinv', hguar, ⟨((World.exec_frame he).req id).trans hx.1, hy⟩, by rw [hx.1]⟩
  · refine Triple.assume (φ := v = leNat r.inBuf off len) (fun _ hx => hx.2) fun hv => ?_
    subst hv
    exact Triple.weaken hk (fun _ hx => hx.1) fun _ _ hq => hq

/-- The request `r` is in its StateLock section. -/
structure Sectioned (r : Request) (x : World × Windows) : Prop where
  req : x.1.req = r
  lock : x.1.stateLock = some .ioctl
  took : TookState (x.1.hist .ioctl)

theorem Sectioned.congr {x y : World × Windows} (h : Sectioned r x) (hb : Beside x y) :
    Sectioned r y := by
  refine ⟨hb.req.trans h.req, (hb.lock h.lock).1, ?_⟩
  rw [hb.hist]
  exact h.took

/-- A load in the section changes nothing. -/
theorem Sectioned.load {L : Tid → Prop} {e : Choice} {c : DeviceContext} {x y : World × Windows}
    (h : Sectioned r x) (hl : L .ioctl) (hinv : SteeringInv L x)
    (he : (driverMachine.observe windowLog).exec .ioctl .load e x = some (c, y)) :
    SteeringInv L y ∧ Sectioned r y ∧ y.2 = x.2 ∧ y.1.ctx = x.1.ctx ∧ c = x.1.ctx := by
  obtain ⟨he, -, hseen⟩ := watched_exec he
  have hseen : y.2 = x.2 := hseen
  have hf := World.exec_frame he
  have hlock : y.1.stateLock = some .ioctl := (hf.stateLock id).trans h.lock
  have hreq : y.1.req = x.1.req := hf.req id
  obtain ⟨w₁, hs, -⟩ := World.exec_step he
  obtain ⟨rfl, -⟩ := Prod.mk.inj (Option.some.inj hs)
  refine ⟨⟨fun _ => hl, ?_, fun i cfg hi hno => ?_⟩, ⟨hreq.trans h.req, hlock, ?_⟩, hseen, hf.ctx, rfl⟩
  · rw [hseen]
    exact hinv.user
  · rw [hseen] at hi ⊢
    exact hinv.holds i cfg hi fun _ => hreq ▸ hno hlock
  · rw [hf.hist, Function.update_self]
    exact List.mem_cons_of_mem _ h.took

/-- In the section, and the window named holds what it was asked; it was asked what the request
asks if the status is success. -/
structure Settling (r : Request) (s : NtStatus) (x : World × Windows) : Prop
    extends Sectioned r x where
  holds : ∀ cfg, x.2.asked r.tlbId = some cfg → r.tlbId < kernelTlbIndex ∧ x.2.Holds r.tlbId cfg
  asked : s = .success → x.2.asked r.tlbId = some r.tlbConfig

theorem stable_settling (s : NtStatus) : steering.Stable .ioctl (Settling r s) := by
  intro x y hr h
  have hb : Beside x y := hr rfl
  refine ⟨h.toSectioned.congr hb, fun cfg hcfg => ?_, fun hs => ?_⟩
  · rw [hb.asked] at hcfg
    obtain ⟨hi, hholds⟩ := h.holds cfg hcfg
    exact ⟨hi, (hb.regs _ hi).holds hholds⟩
  · rw [hb.asked]
    exact h.asked hs

/-- The request has left the section, or never was in it. -/
structure Finished (s : NtStatus) (x : World × Windows) : Prop where
  lock : x.1.stateLock ≠ some .ioctl
  asked : s = .success → TookState (x.1.hist .ioctl) → x.2.asked x.1.req.tlbId = some x.1.req.tlbConfig

theorem stable_finished (s : NtStatus) : steering.Stable .ioctl (Finished s) := by
  intro x y hr h
  have hb : Beside x y := hr rfl
  refine ⟨hb.free h.lock, fun hs htook => ?_⟩
  rw [hb.asked, hb.req]
  exact h.asked hs (hb.hist ▸ htook)

theorem Reading.finished {x : World × Windows} (h : Reading r x) (s : NtStatus) : Finished s x :=
  ⟨h.2.1, fun _ htook => absurd htook h.2.2⟩

/-! ### The lock -/

theorem acquire_steering :
    steering.Triple (driverMachine.observe windowLog) .ioctl (Reading r) (acquire .state)
      fun _ => Settling r .deviceNotReady := by
  refine Triple.vis_known (I := fun _ => Settling r .deviceNotReady) stable_reading
    (fun _ _ _ _ _ _ _ => trivial) ?_ fun _ => Keeps.pure (stable_settling _)
  intro x L e a y hx hl hinv _ _ he
  obtain ⟨he, -, hseen⟩ := watched_exec he
  have hseen : y.2 = x.2 := hseen
  have hf := World.exec_frame he
  have hlock : y.1.stateLock = some .ioctl := by
    obtain ⟨w₁, hs, hw⟩ := World.exec_step he
    simp only [World.step, Option.ite_none_right_eq_some, Option.some.injEq, Prod.mk.injEq] at hs
    obtain ⟨-, -, rfl⟩ := hs
    rw [hw]
    rfl
  -- until now nobody was in the section
  have hholds : ∀ i cfg, x.2.asked i = some cfg → x.2.Holds i cfg := fun i cfg hi =>
    hinv.holds i cfg hi fun hx' => absurd hx' hx.2.1
  refine ⟨⟨fun _ => hl, fun i cfg hi => ?_, fun i cfg hi _ => ?_⟩, fun h => absurd rfl h,
    ⟨⟨(hf.req id).trans hx.1, hlock, ?_⟩, fun cfg hcfg => ?_, fun h => by cases h⟩⟩
  · rw [hseen] at hi
    exact hinv.user i cfg hi
  · rw [hseen] at hi ⊢
    exact hholds i cfg hi
  · rw [hf.hist, Function.update_self]
    exact List.mem_cons_self
  · rw [hseen] at hcfg ⊢
    exact ⟨hinv.user _ cfg hcfg, hholds _ cfg hcfg⟩

theorem release_steering (s : NtStatus) :
    steering.Triple (driverMachine.observe windowLog) .ioctl (Settling r s) (release .state)
      fun _ => Finished s := by
  refine Triple.vis_known (I := fun _ => Finished s) (stable_settling s)
    (fun _ _ _ _ _ _ _ => trivial) ?_ fun _ => Keeps.pure (stable_finished s)
  intro x L e a y hx _ hinv _ _ he
  obtain ⟨he, -, hseen⟩ := watched_exec he
  have hseen : y.2 = x.2 := hseen
  have hf := World.exec_frame he
  have hlock : y.1.stateLock = none := by
    obtain ⟨w₁, hs, hw⟩ := World.exec_step he
    simp only [World.step, Option.ite_none_right_eq_some, Option.some.injEq, Prod.mk.injEq] at hs
    obtain ⟨-, -, rfl⟩ := hs
    rw [hw]
    rfl
  have hfree : y.1.stateLock ≠ some .ioctl := by
    rw [hlock]
    intro h
    cases h
  refine ⟨⟨fun h => absurd h hfree, fun i cfg hi => ?_, fun i cfg hi _ => ?_⟩, fun h => absurd rfl h,
    ⟨hfree, fun hs _ => ?_⟩⟩
  · rw [hseen] at hi
    exact hinv.user i cfg hi
  · rw [hseen] at hi ⊢
    by_cases hid : i = r.tlbId
    · subst hid
      exact (hx.holds cfg hi).2
    · exact hinv.holds i cfg hi fun _ => hx.req ▸ hid
  · rw [hseen, (hf.req id), hx.req]
    exact hx.asked hs

/-! ### The writes -/

/-- The handle of the request owns the window, and the registers listed hold what was written. -/
structure Writing (r : Request) (fo : FileObject) (p : IoPtr) (written : List (Nat × Nat))
    (x : World × Windows) : Prop extends Sectioned r x where
  asker : r.fileObject = some fo
  owner : x.1.ctx.tlbOwner r.tlbId = some fo
  user : r.tlbId < kernelTlbIndex
  ptr : x.1.ctx.tlbRegs = p
  regs : ∀ e ∈ written, WindowReg r.tlbId e.1 ∧ leNat x.2.regs e.1 4 = e.2
  asked : written ≠ [] → x.2.asked r.tlbId = some r.tlbConfig

variable {fo : FileObject} {p : IoPtr} {written : List (Nat × Nat)}

theorem stable_writing : steering.Stable .ioctl (Writing r fo p written) := by
  intro x y hr h
  have hb : Beside x y := hr rfl
  refine ⟨h.toSectioned.congr hb, h.asker, ?_, h.user, hb.tlbRegs.trans h.ptr, fun e he => ?_, fun hne => ?_⟩
  · rw [(hb.lock h.lock).2]
    exact h.owner
  · obtain ⟨hoff, hval⟩ := h.regs e he
    exact ⟨hoff, (leNat_congr (hb.regs _ h.user e.1 hoff)).trans hval⟩
  · rw [hb.asked]
    exact h.asked hne

/-- A register of the window is written, apart from those written before. -/
theorem write_steering {off : Nat} {v : UInt32} {k : Unit → Drv α} (hoff : WindowReg r.tlbId off)
    (hapart : ∀ e ∈ written, off + 4 ≤ e.1 ∨ e.1 + 4 ≤ off)
    (hk : steering.Triple (driverMachine.observe windowLog) .ioctl
      (Writing r fo p ((off, v.toNat) :: written)) (k ()) Q) :
    steering.Triple (driverMachine.observe windowLog) .ioctl (Writing r fo p written)
      (.vis (.mmioWrite p off v) k) Q := by
  refine Triple.vis_known (I := fun _ => Writing r fo p ((off, v.toNat) :: written)) stable_writing ?_ ?_
    fun _ => hk
  · intro x L hx _ _ _ _ _
    refine .inr ⟨rfl, fo, ?_, ?_, ?_, hx.took⟩
    · rw [hx.req]
      exact hx.asker
    · rw [hx.req]
      exact hx.owner
    · rw [hx.req]
      exact hoff
  · intro x L e _ y hx hl hinv _ _ he
    obtain ⟨he, -, hnote⟩ := watched_exec he
    simp only [windowLog, if_pos hx.ptr.symm, hx.lock, and_self, if_true, hx.req] at hnote
    have hf := World.exec_frame he
    have hregs : y.2.regs = leStore x.2.regs off 4 v.toNat := by rw [hnote]
    have hself : y.2.asked r.tlbId = some r.tlbConfig := by
      rw [hnote]
      exact Function.update_self _ _ _
    have hother : ∀ i, i ≠ r.tlbId → y.2.asked i = x.2.asked i := by
      intro i hi
      rw [hnote]
      exact Function.update_of_ne hi _ _
    have hlock : y.1.stateLock = some .ioctl := (hf.stateLock id).trans hx.lock
    have hreq : y.1.req = r := (hf.req id).trans hx.req
    have hctx : y.1.ctx = x.1.ctx := hf.ctx
    have hcount : r.tlbId < tlb2mCount := Nat.lt_trans hx.user (by decide)
    have huser : ∀ i cfg, y.2.asked i = some cfg → i < kernelTlbIndex := by
      intro i cfg hi
      by_cases hid : i = r.tlbId
      · exact hid ▸ hx.user
      · exact hinv.user i cfg (hother i hid ▸ hi)
    refine ⟨⟨fun _ => hl, huser, fun i cfg hi hno => ?_⟩, fun h => absurd rfl h,
      ⟨⟨hreq, hlock, ?_⟩, hx.asker, ?_, hx.user, ?_, fun e he => ?_, fun _ => hself⟩⟩
    · -- the other windows keep what they hold
      have hid : i ≠ r.tlbId := hreq ▸ hno hlock
      have hi' : x.2.asked i = some cfg := hother i hid ▸ hi
      have hholds := hinv.holds i cfg hi' fun _ => hx.req ▸ hid
      exact (sameWindow_store hcount (Nat.lt_trans (huser i cfg hi) (by decide)) (Ne.symm hid) hoff
        hregs).holds hholds
    · rw [hf.hist, Function.update_self]
      exact List.mem_cons_of_mem _ hx.took
    · rw [hctx]
      exact hx.owner
    · rw [hctx]
      exact hx.ptr
    · rw [hregs]
      rcases List.mem_cons.mp he with rfl | he
      · have hfits : v.toNat % 256 ^ 4 = v.toNat := Nat.mod_eq_of_lt v.toNat_lt
        exact ⟨hoff, (leNat_leStore ..).trans hfits⟩
      · obtain ⟨hoff', hval⟩ := hx.regs e he
        exact ⟨hoff', (leNat_leStore_of_disjoint (hapart e he).symm).trans hval⟩

/-- A load in the section shows the pointer to the block. -/
theorem load_steering {k : DeviceContext → Drv α}
    (hk : ∀ c : DeviceContext, c.tlbRegs = p → steering.Triple (driverMachine.observe windowLog) .ioctl
      (Writing r fo p written) (k c) Q) :
    steering.Triple (driverMachine.observe windowLog) .ioctl (Writing r fo p written) (.vis .load k) Q := by
  refine Triple.vis_known (I := fun c x => Writing r fo p written x ∧ DeviceContext.tlbRegs c = p)
    stable_writing (fun _ _ _ _ _ _ _ => trivial) ?_ fun c => ?_
  · intro x L e c y hx hl hinv _ _ he
    obtain ⟨hinv', hsect, hseen, hctx, rfl⟩ := hx.toSectioned.load hl hinv he
    refine ⟨hinv', fun h => absurd rfl h, ⟨hsect, hx.asker, ?_, hx.user, ?_, ?_, ?_⟩, hx.ptr⟩
    · rw [hctx]
      exact hx.owner
    · rw [hctx]
      exact hx.ptr
    · rw [hseen]
      exact hx.regs
    · rw [hseen]
      exact hx.asked
  · exact Triple.assume (fun _ hx => hx.2) fun hc => Triple.weaken (hk c hc) (fun _ hx => hx.1)
      fun _ _ hq => hq

/-! ### The section -/

/-- The image of the three registers, with the strided one 0, is the configuration. -/
theorem Writing.settling {img : UInt64 × UInt32} (rest : List (Nat × Nat)) {x : World × Windows}
    (h : Writing r fo p (rest ++ [(r.tlbId * tlbRegSize + 8, img.2.toNat),
      (r.tlbId * tlbRegSize + 4, (img.1 >>> 32).toUInt32.toNat),
      (r.tlbId * tlbRegSize + 0, img.1.toUInt32.toNat)]) x)
    (hstrided : r.tlbId < tlbStridedCount →
      (tlbStridedRegsOffset + r.tlbId * tlbStridedRegSize, 0) ∈ rest)
    (himg : img = packTlb2M r.tlbConfig) (hr : r.tlbConfig.inRange = true)
    (ha : r.tlbConfig.addr &&& (tlb2mSize - 1) = 0) : Settling r .success x := by
  have hread : ∀ {off v : Nat}, (off, v) ∈ rest ++ [(r.tlbId * tlbRegSize + 8, img.2.toNat),
      (r.tlbId * tlbRegSize + 4, (img.1 >>> 32).toUInt32.toNat),
      (r.tlbId * tlbRegSize + 0, img.1.toUInt32.toNat)] → leNat x.2.regs off 4 = v :=
    fun hm => (h.regs _ hm).2
  have h0 : leNat x.2.regs (r.tlbId * tlbRegSize) 4 = img.1.toUInt32.toNat :=
    hread (List.mem_append_right _ (.tail _ (.tail _ (.head _))))
  have h1 : leNat x.2.regs (r.tlbId * tlbRegSize + 4) 4 = (img.1 >>> 32).toUInt32.toNat :=
    hread (List.mem_append_right _ (.tail _ (.head _)))
  have h2 : leNat x.2.regs (r.tlbId * tlbRegSize + 8) 4 = img.2.toNat :=
    hread (List.mem_append_right _ (.head _))
  have hasked := h.asked (by simp)
  subst himg
  have hholds : x.2.Holds r.tlbId r.tlbConfig :=
    Windows.holds_of_regs hr ha h0 h1 h2 fun hi => hread (List.mem_append_left _ (hstrided hi))
  refine ⟨h.toSectioned, fun cfg hcfg => ?_, fun _ => hasked⟩
  obtain rfl := Option.some.inj (hasked.symm.trans hcfg)
  exact ⟨h.user, hholds⟩

theorem programTlb2M_steering (hr : r.tlbConfig.inRange = true)
    (ha : r.tlbConfig.addr &&& (tlb2mSize - 1) = 0) :
    steering.Triple (driverMachine.observe windowLog) .ioctl (Writing r fo p [])
      (programTlb2M r.tlbId r.tlbConfig) fun _ => Settling r .success := by
  refine load_steering fun c hc => ?_
  subst hc
  refine write_steering (.inl rfl) (by simp) ?_
  refine write_steering (.inr (.inl rfl)) (by simp) ?_
  refine write_steering (.inr (.inr (.inl rfl))) (by simp) ?_
  refine Triple.ite (fun hi => ?_) fun hi => ?_
  · refine load_steering fun c' hc' => ?_
    rw [← hc']
    refine write_steering (.inr (.inr (.inr ⟨hi, rfl⟩))) ?_ ?_
    · simp only [List.mem_cons, List.not_mem_nil, or_false, forall_eq_or_imp, forall_eq, tlbRegSize,
        tlbStridedRegSize, tlbStridedRegsOffset, tlbStridedCount, tlb2mCount, tlb4gCount] at *
      omega
    · refine Triple.pure stable_writing fun x hx => ?_
      exact Writing.settling [_] hx (fun _ => List.mem_cons_self) rfl hr ha
  · refine Triple.pure stable_writing fun x hx => ?_
    exact Writing.settling [] hx (fun h => absurd h hi) rfl hr ha

theorem configureLocked_steering (hfo : r.fileObject = some fo) (hr : r.tlbConfig.inRange = true)
    (ha : r.tlbConfig.addr &&& (tlb2mSize - 1) = 0) :
    steering.Triple (driverMachine.observe windowLog) .ioctl (Settling r .deviceNotReady)
      (configureLocked fo r.tlbId r.tlbConfig) (Settling r) := by
  refine Triple.vis_known (I := fun c x => Settling r .deviceNotReady x ∧
    x.1.ctx.tlbOwner = DeviceContext.tlbOwner c ∧ x.1.ctx.tlbRegs = DeviceContext.tlbRegs c ∧
    (DeviceContext.tlbOwner c r.tlbId ≠ none → r.tlbId < kernelTlbIndex)) (stable_settling _)
    (fun _ _ _ _ _ _ _ => trivial) ?_ fun c => ?_
  · intro x L e c y hx hl hinv hknown _ he
    obtain ⟨hinv', hsect, hseen, hctx, rfl⟩ := hx.toSectioned.load hl hinv he
    refine ⟨hinv', fun h => absurd rfl h, ⟨hsect, ?_, fun h => by cases h⟩, ?_, ?_, fun hne => hknown.2.user_of_owned hne⟩
    · rw [hseen]
      exact hx.holds
    · rw [hctx]
    · rw [hctx]
  have hstop : ∀ s : NtStatus, s ≠ .success → steering.Triple (driverMachine.observe windowLog) .ioctl
      (fun x => Settling r .deviceNotReady x ∧ x.1.ctx.tlbOwner = c.tlbOwner ∧
        x.1.ctx.tlbRegs = c.tlbRegs ∧ (c.tlbOwner r.tlbId ≠ none → r.tlbId < kernelTlbIndex))
      (Pure.pure s) (Settling r) := by
    intro s hs x hx
    exact Triple.pure (stable_settling _) (fun _ h => ⟨h.toSectioned, h.holds, fun h => absurd h hs⟩) x hx.1
  refine Triple.ite (fun hrefused => hstop _ fun heq => ?_) fun hok => Triple.ite (fun _ => hstop _ fun h => by cases h)
    fun _ => ?_
  · rw [heq] at hrefused
    cases hrefused
  · have hstatus : c.checkTlbOwner fo r.tlbId = .success ∧ c.tlbOwner r.tlbId = some fo := by
      by_cases hrange : tlb2mCount ≤ r.tlbId
      · simp [DeviceContext.checkTlbOwner, hrange, NtStatus.ok, NtStatus.code] at hok
      · by_cases howner : c.tlbOwner r.tlbId = some fo
        · exact ⟨by simp [DeviceContext.checkTlbOwner, hrange, howner], howner⟩
        · simp [DeviceContext.checkTlbOwner, hrange, howner, NtStatus.ok, NtStatus.code] at hok
    have howner : c.tlbOwner r.tlbId ≠ none := by simp [hstatus.2]
    rw [hstatus.1]
    have hprogram : steering.Triple (driverMachine.observe windowLog) .ioctl
        (Writing r fo c.tlbRegs []) (programTlb2M r.tlbId r.tlbConfig) fun _ => Settling r .success :=
      programTlb2M_steering hr ha
    refine Triple.bind (p := programTlb2M r.tlbId r.tlbConfig) steering_steady
      (Triple.weaken hprogram (fun x hx => ?_) fun _ _ hq => hq) fun _ =>
        Triple.pure (stable_settling _) fun _ hx => hx
    obtain ⟨hsettling, hown, hptr, huser⟩ := hx
    refine ⟨hsettling.toSectioned, hfo, ?_, huser howner, hptr, (fun _ h => by cases h), fun h => absurd rfl h⟩
    rw [hown]
    exact hstatus.2

theorem ioctlConfigureTlb_steering :
    steering.Triple (driverMachine.observe windowLog) .ioctl (Reading r)
      (ioctlConfigureTlb r.fileObject) Finished := by
  have hstop : ∀ s : NtStatus, steering.Triple (driverMachine.observe windowLog) .ioctl (Reading r)
      (Pure.pure s : Drv NtStatus) Finished := fun s => Triple.pure stable_reading fun _ h => h.finished s
  cases hfo : r.fileObject with
  | none => exact hstop _
  | some fo =>
    refine Triple.bind (p := op (.inputBuffer 40)) steering_steady
      (reading_keeps ((within_perform _).mpr ⟨trivial, id⟩)) fun status => Triple.ite (fun _ => hstop _) fun _ => ?_
    refine read_steering (read_steering (read_steering ?_))
    refine Triple.ite (fun _ => hstop _) fun _ => ?_
    refine read_steering (read_steering (read_steering (read_steering (read_steering ?_))))
    refine read_steering (read_steering (read_steering (read_steering (read_steering ?_))))
    refine Triple.ite (fun _ => hstop _) fun ha => Triple.ite (fun _ => hstop _) fun hr => ?_
    refine read_steering ?_
    refine Triple.bind (p := acquire .state) steering_steady acquire_steering fun _ => ?_
    refine Triple.bind (p := configureLocked fo r.tlbId r.tlbConfig) steering_steady
      (configureLocked_steering hfo ?_ (not_not.mp ha)) fun s => ?_
    · have hrange : ¬ (!r.tlbConfig.inRange) = true := hr
      simpa using hrange
    · exact Triple.bind (p := release .state) steering_steady (release_steering s) fun _ =>
        Triple.pure (stable_finished s) fun _ h => h

/-- The end of a CONFIGURE_TLB. -/
theorem complete_steering (s : NtStatus) (n : Nat) :
    steering.Triple (driverMachine.observe windowLog) .ioctl (Finished s) (op (.complete s n))
      fun _ x => x.1.stateLock ≠ some .ioctl := by
  have hstable : steering.Stable .ioctl fun x => x.1.stateLock ≠ some .ioctl := by
    intro x y hr h
    have hb : Beside x y := hr rfl
    exact hb.free h
  refine Triple.vis_known (I := fun _ (x : World × Windows) => x.1.stateLock ≠ some .ioctl)
    (stable_finished s) ?_ ?_
    fun _ => Keeps.pure hstable
  · intro x L hx _ _ _ _
    cases s with
    | success => exact fun _ htook => ⟨hx.lock, hx.asked rfl htook⟩
    | _ => trivial
  · intro x L e a y hx hl hinv hknown ha he
    have haside : Aside .ioctl (.complete s n) x := ⟨nofun, fun h => h.elim, fun _ => ⟨id, hx.lock⟩⟩
    obtain ⟨hinv', -, -, hfree⟩ := aside_step haside hl hknown.1 hinv ha he
    exact ⟨hinv', fun h => absurd rfl h, hfree hx.lock⟩

/-- A whole CONFIGURE_TLB request. -/
theorem configureRequest_steering :
    steering.Triple (driverMachine.observe windowLog) .ioctl (Reading r)
      (evtIoDeviceControl r.fileObject .configureTlb) fun _ x => x.1.stateLock ≠ some .ioctl := by
  have hdone : ∀ s n, steering.Triple (driverMachine.observe windowLog) .ioctl (Reading r)
      (op (.complete s n)) fun _ x => x.1.stateLock ≠ some .ioctl := fun s n =>
    Triple.weaken (complete_steering s n) (fun _ h => h.finished s) fun _ _ h => h
  refine Triple.bind (p := isStale r.fileObject) steering_steady
    (reading_keeps (isStale_only ⟨trivial, id⟩ (fun _ => ⟨trivial, id⟩) _)) fun _ => ?_
  refine Triple.ite (fun _ => hdone _ _) fun _ => ?_
  refine Triple.bind (p := load) steering_steady (reading_keeps ((within_perform _).mpr ⟨trivial, id⟩))
    fun c => Triple.ite (fun _ => hdone _ _) fun _ => ?_
  refine Triple.bind (p := noOutput (ioctlConfigureTlb r.fileObject)) steering_steady
    (Q := fun a => Finished a.1) ?_ fun a => complete_steering a.1 a.2
  exact Triple.bind (p := ioctlConfigureTlb r.fileObject) steering_steady ioctlConfigureTlb_steering
    fun s => Triple.pure (stable_finished s) fun _ h => h

end Configure

/-! ## The whole system -/

theorem begins_steering {L : Tid → Prop} {t : Tid} {p : Drv Unit} {x y : World × Windows}
    (h : Begins L t p x.1 y.1) (hnl : ¬ L t) (hinv : SteeringInv L x) :
    steering.Safe (driverMachine.observe windowLog) t p (fun _ => steering.post t) y := by
  have hbystander : ∀ {u : Tid} {q : Drv Unit} {K : Op → Prop}, u ≠ .ioctl →
      (u ≠ .hardware → ∀ o, K o → ¬ o.writesRequest) →
      (∀ o, K o → (∃ p off v, o = .mmioWrite p off v) → u.Works) → q.Only K →
      steering.Safe (driverMachine.observe windowLog) u q (fun _ => steering.post u) y :=
    fun hu hreq hworks hq => Protocol.Safe.mono (bystander_steering hu hreq hworks hq y trivial)
      fun _ _ _ ht => absurd ht hu
  have hnowrite : ∀ {K : Op → Prop}, (∀ p off v, ¬ K (.mmioWrite p off v)) → ∀ {u : Tid} (o : Op), K o →
      (∃ p off v, o = .mmioWrite p off v) → u.Works := by
    rintro K hK u o ho ⟨p, off, v, rfl⟩
    exact absurd ho (hK p off v)
  generalize hw' : y.1 = w' at h
  cases h with
  | ioctl r code p hhw hal hopen =>
    have hlock : y.1.stateLock ≠ some .ioctl := by
      rw [hw']
      exact fun hx => hnl (hinv.held hx)
    have hunheld : Unheld y := by
      refine ⟨hlock, fun htook => ?_⟩
      rw [hw'] at htook
      simp [World.enter, TookState] at htook
    by_cases hcode : code = .configureTlb
    · subst hcode
      refine Protocol.Safe.mono (configureRequest_steering y ⟨?_, hunheld⟩) fun _ _ hx _ => hx
      rw [hw']
    · exact Protocol.Safe.mono (unheld_keeps (evtIoDeviceControl_leavesState _ hcode) y hunheld)
        fun _ _ hx _ => hx.1
  | power cb p =>
    refine hbystander (fun h => by cases h) (fun _ o ho => ?_) (fun _ _ _ => .inr rfl) (power_only cb)
    cases o <;> first | exact id | exact (ho : False).elim
  | prepare resources p =>
    exact hbystander (fun h => by cases h) (fun h => absurd rfl h) (hnowrite fun _ _ _ h => h)
      ((evtDevicePrepareHardware_only resources).bind fun _ => trivial)
  | release p =>
    exact hbystander (fun h => by cases h) (fun h => absurd rfl h) (hnowrite fun _ _ _ h => h) evtDeviceReleaseHardware_only
  | create fo p =>
    refine hbystander (K := fun o => createFoot o ∧ ¬ o.writesRequest) (fun h => by cases h) (fun _ _ ho => ho.2)
      (hnowrite fun _ _ _ h => h.1) ?_
    exact ⟨⟨trivial, id⟩, fun _ _ => ⟨⟨trivial, id⟩, fun _ _ => (within_perform _).mpr ⟨trivial, id⟩⟩⟩
  | cleanup fo p =>
    refine hbystander (K := fun o => cleanupFoot fo o ∧ ¬ o.writesRequest) (fun h => by cases h) (fun _ _ ho => ho.2)
      (hnowrite fun _ _ _ h => h.1) ⟨⟨rfl, id⟩, fun ms _ => destroyAll_only ?_ ms⟩
    exact ⟨⟨trivial, id⟩, fun _ => ⟨trivial, id⟩, fun _ => ⟨trivial, id⟩, fun _ => ⟨trivial, id⟩,
      fun _ => ⟨trivial, id⟩, fun _ _ => ⟨trivial, id⟩, fun _ => ⟨trivial, id⟩,
      fun _ => ⟨trivial, id⟩, fun _ => ⟨trivial, id⟩⟩

/-- A step that is no operation, as a request sees it. -/
theorem Beside.of_same {x y : World × Windows} (hreq : y.1.req = x.1.req)
    (hhist : y.1.hist .ioctl = x.1.hist .ioctl) (hctx : y.1.ctx = x.1.ctx)
    (hlock : y.1.stateLock = x.1.stateLock) (hseen : y.2 = x.2) : Beside x y := by
  refine ⟨hreq, hhist, by rw [hctx], fun h => ⟨hlock.trans h, by rw [hctx]⟩, fun h => ?_, by rw [hseen],
    fun i _ _ _ _ _ _ => by rw [hseen]⟩
  rw [hlock]
  exact h

theorem SteeringInv.congr {L L' : Tid → Prop} {x y : World × Windows} (h : SteeringInv L x)
    (hlive : x.1.stateLock = some .ioctl → L .ioctl → L' .ioctl)
    (hlock : y.1.stateLock = x.1.stateLock)
    (hreq : x.1.stateLock = some .ioctl → y.1.req = x.1.req) (hseen : y.2 = x.2) : SteeringInv L' y := by
  refine ⟨fun hy => ?_, fun i cfg hi => ?_, fun i cfg hi hno => ?_⟩
  · rw [hlock] at hy
    exact hlive hy (h.held hy)
  · rw [hseen] at hi
    exact h.user i cfg hi
  · rw [hseen] at hi ⊢
    refine h.holds i cfg hi fun hx => ?_
    rw [← hreq hx]
    exact hno (hlock.trans hx)

theorem steering_sound : steering.Sound (driver.observe windowLog) where
  toSteady := steering_steady
  initial x hx := by
    obtain ⟨⟨buffer, hw⟩, hg⟩ := hx
    have hnone : ∀ i, x.2.asked i = none := fun i => congrFun hg i
    refine ⟨fun h => ?_, fun i cfg hi => ?_, fun i cfg hi => ?_⟩
    · rw [hw] at h
      cases h
    · rw [hnone] at hi
      cases hi
    · rw [hnone] at hi
      cases hi
  compat L t t' x y hl hl' hne _ hknown hg ht := by
    subst ht
    exact hg hne fun hhw => (hknown.1.alone (hhw ▸ hl)).1 hl'
  begins L t p x y hb hnl hinv _ := by
    obtain ⟨hb, hseen⟩ := hb
    have hlock : y.1.stateLock = x.1.stateLock := by
      generalize y.1 = w' at hb
      cases hb <;> rfl
    refine ⟨hinv.congr (fun _ => .inr) hlock (fun hx => ?_) hseen, fun t' ht' hio => ?_,
      begins_steering hb hnl hinv⟩
    · exact begins_req hb fun ht => hnl (ht ▸ hinv.held hx)
    · subst hio
      have hne : t ≠ .ioctl := fun h => hnl (h ▸ ht')
      exact Beside.of_same (begins_req hb hne) (begins_hist hb (Ne.symm hne)) (begins_ctx hb) hlock hseen
  ends L t x y he hl hinv _ hpost := by
    obtain ⟨he, hseen⟩ := he
    have hleave : y.1 = x.1.leave t := he
    have hsame : y.1.ctx = x.1.ctx ∧ y.1.req = x.1.req ∧ y.1.hist = x.1.hist ∧
        y.1.stateLock = x.1.stateLock := by
      rw [hleave]
      cases t <;> exact ⟨rfl, rfl, rfl, rfl⟩
    obtain ⟨hctx, hreq, hhist, hlock⟩ := hsame
    refine ⟨hinv.congr (fun hx hlive => ⟨fun h => hpost h.symm hx, hlive⟩) hlock (fun _ => hreq) hseen,
      fun t' _ _ => Beside.of_same hreq (by rw [hhist]) hctx hlock hseen⟩
  env L x y he hinv _ := by
    have hsame : y.1.ctx = x.1.ctx ∧ y.1.req = x.1.req ∧ y.1.hist = x.1.hist ∧
        y.1.stateLock = x.1.stateLock ∧ y.2 = x.2 := by
      rcases he with ⟨he, hseen⟩ | ⟨-, n, hdrift⟩
      · refine ⟨environment_ctx he, ?_, ?_, ?_, hseen⟩ <;> generalize y.1 = w' at he <;> cases he <;> rfl
      · cases hdrift
    obtain ⟨hctx, hreq, hhist, hlock, hseen⟩ := hsame
    exact ⟨hinv.congr (fun _ => id) hlock (fun _ => hreq) hseen,
      fun t' _ _ => Beside.of_same hreq (by rw [hhist]) hctx hlock hseen⟩

/-- Every run of the watched driver is disciplined and placed. -/
theorem reach_steering {c : WatchedConfig Windows} (h : Reach (driver.observe windowLog) anyStep c) :
    Reach (driver.observe windowLog) steering.allow c :=
  h.restrict fun _ _ _ _ hc hp _ => mmio_sound.about (reach_unwatched hc) hp trivial

theorem steering_known (c : WatchedConfig Windows)
    (h : Reach (driver.observe windowLog) steering.allow c) : steering.known c.live c.world :=
  ⟨reach_mmioInv (reach_unwatched h), reach_allocatorInv (reach_unwatched h)⟩

/-! ## What the registers hold -/

def Op.takesState (o : Op) : Prop := o = .acquire .state

def Op.notSuccess (o : Op) : Prop := ∀ n, o ≠ .complete .success n

/-- Before it has taken StateLock, a CONFIGURE_TLB does not succeed. -/
theorem configureRequest_until (fileObject : Option FileObject) :
    (evtIoDeviceControl fileObject .configureTlb).Until Op.takesState Op.notSuccess fun _ => True := by
  have hother : ∀ {o : Op}, (∀ s n, o ≠ .complete s n) → o.notSuccess := fun h n => h .success n
  have hdone : ∀ (s : NtStatus) (n : Nat), s ≠ .success →
      (op (.complete s n)).Until Op.takesState Op.notSuccess fun _ => True :=
    fun s n hs => ⟨fun n' heq => hs (Op.complete.inj heq).1, fun _ _ => trivial⟩
  have hread : ∀ {off len : Nat} {k : Nat → Drv NtStatus},
      (∀ v, (k v).Until Op.takesState Op.notSuccess (· ≠ .success)) →
      (Prog.vis (.inField off len) k : Drv NtStatus).Until Op.takesState Op.notSuccess (· ≠ .success) :=
    fun hk => ⟨hother nofun, fun _ => hk⟩
  have hhandler : (ioctlConfigureTlb fileObject).Until Op.takesState Op.notSuccess (· ≠ .success) := by
    cases fileObject with
    | none => exact (nofun : NtStatus.invalidHandle ≠ .success)
    | some fo =>
      refine ⟨hother nofun, fun _ (status : NtStatus) => Until.ite (fun hbad heq => ?_) fun _ => ?_⟩
      · rw [heq] at hbad
        cases hbad
      refine hread fun _ => hread fun _ => hread fun _ => Until.ite (fun _ => nofun) fun _ => ?_
      refine hread fun _ => hread fun _ => hread fun _ => hread fun _ => hread fun _ => ?_
      refine hread fun _ => hread fun _ => hread fun _ => hread fun _ => hread fun _ => ?_
      refine Until.ite (fun _ => nofun) fun _ => Until.ite (fun _ => nofun) fun _ => hread fun _ => ?_
      exact ⟨hother nofun, fun hn => absurd rfl hn⟩
  have hstale : (isStale fileObject).Only Op.notSuccess :=
    isStale_only (hother nofun) (fun _ => hother nofun) fileObject
  refine Until.bind hstale.until fun _ _ => Until.ite (fun _ => hdone _ _ nofun) fun _ => ?_
  refine Until.perform_bind (hother nofun) fun c => Until.ite (fun _ => hdone _ _ nofun) fun _ => ?_
  refine Until.bind (Q := fun a : NtStatus × Nat => a.1 ≠ .success) ?_ fun a ha => hdone a.1 a.2 ha
  exact Until.bind hhandler fun _ hs => hs

/-- Every write to the register block is to registers of one window, which lie in what is mapped
there and apart from those of every other window: the kernel's own, or, inside a CONFIGURE_TLB,
the window it names, which its handle owns then. Outside the StateLock section of a
CONFIGURE_TLB each window that was ever configured holds what was last asked of it; and a
CONFIGURE_TLB that succeeds has asked its window what its request says. -/
theorem windows_hold_configuration {c : WatchedConfig Windows}
    (h : Reach (driver.observe windowLog) anyStep c) :
    (∀ t p off v k, c.pool t = some (.vis (.mmioWrite p off v) k) → p = c.world.1.ctx.tlbRegs →
      c.world.1.Mapped p ∧ ∃ i < tlb2mCount, WindowReg i off ∧
        (∀ m ∈ c.world.1.ioMaps, some m.base = p → off + 4 ≤ m.len) ∧
        (∀ j < tlb2mCount, j ≠ i → ∀ off', WindowReg j off' → off' + 4 ≤ off ∨ off + 4 ≤ off') ∧
        (i = kernelTlbIndex ∨ t = .ioctl ∧ i < kernelTlbIndex ∧ i = c.world.1.req.tlbId ∧
          ∃ fo, c.world.1.req.fileObject = some fo ∧ c.world.1.ctx.tlbOwner i = some fo ∧
            (evtIoDeviceControl (some fo) .configureTlb).Leads (c.world.1.hist .ioctl)
              (.vis (.mmioWrite p off v) k))) ∧
    (c.world.1.stateLock ≠ some .ioctl →
      ∀ i cfg, c.world.2.asked i = some cfg → c.world.2.Holds i cfg) ∧
    ∀ fo n k, c.pool .ioctl = some (.vis (.complete .success n) k) →
      (evtIoDeviceControl (some fo) .configureTlb).Leads (c.world.1.hist .ioctl)
        (.vis (.complete .success n) k) →
      c.world.2.asked c.world.1.req.tlbId = some c.world.1.req.tlbConfig ∧
        c.world.2.Holds c.world.1.req.tlbId c.world.1.req.tlbConfig := by
  have hreach := reach_steering h
  have hinv := (steering_sound.good hreach steering_known).inv
  have hallow : ∀ {t : Tid} {o : Op} {k : o.Ans → Drv Unit}, c.pool t = some (.vis o k) →
      steering.allow t o c.world := fun hp => mmio_sound.about (reach_unwatched h) hp trivial
  refine ⟨fun t p off v k hp hptr => ?_, fun hlock i cfg hi => hinv.holds i cfg hi fun hl => absurd hl hlock,
    fun fo n k hp hleads => ?_⟩
  · have hpre := steering_sound.about hreach hp (hallow hp) steering_known hptr
    have hmapped := ((hallow hp).1 p off rfl).2.1
    have hspans := reach_spans (reach_unwatched h)
    have hgeometry : ∀ {i : Nat}, i < tlb2mCount → WindowReg i off →
        (∀ m ∈ c.world.1.ioMaps, some m.base = p → off + 4 ≤ m.len) ∧
        ∀ j < tlb2mCount, j ≠ i → ∀ off', WindowReg j off' → off' + 4 ≤ off ∨ off + 4 ≤ off' := by
      intro i hi hoff
      refine ⟨fun m hm hbase => ?_, fun j hj hji off' hoff' => windowReg_apart hj hi hji hoff' hoff⟩
      rw [hspans m hm (hbase.trans hptr)]
      exact windowReg_inside hi hoff
    refine ⟨hmapped, ?_⟩
    rcases hpre with ⟨hoff, -⟩ | ⟨rfl, fo, hfo, howner, hoff, htook⟩
    · have hi : kernelTlbIndex < tlb2mCount := by decide
      exact ⟨kernelTlbIndex, hi, hoff, (hgeometry hi hoff).1, (hgeometry hi hoff).2, .inl rfl⟩
    · have huser : c.world.1.req.tlbId < kernelTlbIndex :=
        (reach_allocatorInv (reach_unwatched h)).user_of_owned
          (show c.world.1.ctx.tlbOwner c.world.1.req.tlbId ≠ none by simp [howner])
      have hi : c.world.1.req.tlbId < tlb2mCount := Nat.lt_trans huser (by decide)
      obtain ⟨q, ⟨code, rfl⟩, hleads⟩ := reach_inCall (reach_unwatched h) hp
      have hcode : code = .configureTlb := by
        by_contra hne
        exact (hleads.only (evtIoDeviceControl_leavesState _ hne)).2 _ htook rfl
      have hfo : c.world.1.req.fileObject = some fo := hfo
      have hleads : (evtIoDeviceControl c.world.1.req.fileObject code).Leads (c.world.1.hist .ioctl)
        (.vis (.mmioWrite p off v) k) := hleads
      rw [hfo, hcode] at hleads
      exact ⟨_, hi, hoff, (hgeometry hi hoff).1, (hgeometry hi hoff).2,
        .inr ⟨rfl, huser, rfl, fo, hfo, howner, hleads⟩⟩
  · have htook : TookState (c.world.1.hist .ioctl) := by
      by_contra hn
      have hleft := hleads.until (configureRequest_until (some fo)) fun ev hev heq => ?_
      · exact hleft.1 n rfl
      · obtain ⟨o, a⟩ := ev
        have heq : o = .acquire .state := heq
        subst heq
        exact hn hev
    have hpre := steering_sound.about hreach hp (hallow hp) steering_known rfl htook
    exact ⟨hpre.2, hinv.holds _ _ hpre.2 fun hl => absurd hl hpre.1⟩

/-- CONFIGURE_TLB by handle 1 of window 0, at NOC address 0x400000 of tile (8, 0). -/
def configureRequest : Request :=
  { fileObject := some 1, inLen := 40
    inBuf := fun i => if i = 10 then 0x40 else if i = 16 then 8 else 0 }

/-- Handle 1 allocates window 0 and configures it. -/
def configuringRun : List Move :=
  cardArrives 0x10000000 ++ opens 1 0 ++
    [.ioctl allocateRequest .allocateTlb 0, .ops .ioctl (plainOps 10), .ends .ioctl,
      .ioctl configureRequest .configureTlb 0, .ops .ioctl (plainOps 27)]

theorem windows_hold_configuration_configured :
    ∃ c : WatchedConfig Windows, Reach (driver.observe windowLog) anyStep c ∧
      c.world.2.Holds 0 { addr := 0x400000, xEnd := 8 } := by
  have hplay : (WatchedConfig.play windowLog (fun _ _ _ => true) (configuringRun.map .driver)
      (idle.watched ⟨fun _ => 0xFF, fun _ => none⟩)).any (fun c =>
        c.world.1.stateLock == none &&
          c.world.2.asked 0 == some { addr := 0x400000, xEnd := 8 }) = true := by decide +kernel
  have hinitial : windowLog.initial {} ⟨fun _ => 0xFF, fun _ => none⟩ := rfl
  obtain ⟨c, hreach, hend⟩ := WatchedConfig.exists_reach (fun _ _ _ _ => trivial) hinitial hplay
  simp only [Bool.and_eq_true, beq_iff_eq] at hend
  refine ⟨c, hreach, (windows_hold_configuration hreach).2.1 ?_ 0 _ hend.2⟩
  rw [hend.1]
  nofun

end TtWind
