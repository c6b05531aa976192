import TtWind.Laws.Current
import TtWind.Laws.Calls
import TtWind.Laws.Iatu

/-!
# When the buffer is advertised

The flag that advertises the sysmem buffer is set at the end of an arm, under ArcLock, and taken
back at the beginning of the next one, by a reset, a suspend and a release. What it vouches for
is spread over the device context, the allocator and the iATU: `BufferView` is what the hardware
callbacks leave of the buffer, `ArmView` what an arm leaves. Between two settings of the flag
nothing writes the second without lowering the flag first, and nothing at all writes the first
while a request or a power callback runs.
-/

set_option autoImplicit false

namespace TtWind

open TtWind.Effect TtWind.Effect.Prog TtWind.Effect.Protocol

/-! ## What the flag vouches for -/

/-- The buffer as the hardware callbacks left it. -/
structure BufferView where
  va : IoPtr
  phys : UInt64
  size : UInt64
  live : List Contiguous

/-- What an arm leaves: the flag, the tile, the stage, and region 0 as recorded and as written. -/
structure ArmView where
  verified : Bool
  tile : UInt32
  stage : SysmemStage
  outbound : OutboundIatu
  regs : IatuRegs

def World.bufferView (w : World) : BufferView :=
  ⟨w.ctx.sysmemVa, w.ctx.sysmemPhys, w.ctx.sysmemSize, w.contiguous⟩

/-- What an arm left, from the context and the iATU's registers. -/
def DeviceContext.armView (c : DeviceContext) (g : IatuRegs) : ArmView :=
  ⟨c.sysmemVerified, c.pcieTileX, c.sysmemStage, c.outboundIatu 0, g⟩

def armView (x : World × IatuRegs) : ArmView := x.1.ctx.armView x.2

/-- The buffer is a live allocation of one of the sizes tried. -/
structure BufferView.Allocated (b : BufferView) : Prop where
  tier : b.size ∈ sysmemTiers
  live : ∃ va, b.va = some va ∧ ⟨va, b.phys, b.size⟩ ∈ b.live

/-- Region 0 of the iATU, from address 0 on, is the buffer. -/
def BufferView.window (b : BufferView) : OutboundIatu := ⟨0, b.size - 1, b.phys, true⟩

/-- The tile is known, and region 0 shows the buffer. -/
structure Aimed (b : BufferView) (a : ArmView) : Prop where
  buffer : b.Allocated
  tile : a.tile = 2 ∨ a.tile = 11
  outbound : a.outbound = b.window
  region : outboundRegion a.regs 0 = b.window

/-- What a set flag says. -/
structure Vouched (b : BufferView) (a : ArmView) : Prop extends Aimed b a where
  stage : a.stage = .verified

/-! ## The protocol -/

/-- The context was loaded with the buffer as it is; the flag, if set, vouched for it. -/
structure Fresh (c : DeviceContext) (b : BufferView) : Prop where
  size : c.sysmemSize = b.size
  verified : c.sysmemVerified = true → b.Allocated ∧ (c.pcieTileX = 2 ∨ c.pcieTileX = 11)

/-- What is known of the buffer and the flag. -/
structure SysmemInv (L : Tid → Prop) (x : World × IatuRegs) : Prop where
  vouched : (armView x).verified = true → Vouched x.1.bufferView (armView x)
  loaded : L .ioctl → ∀ c, ⟨.load, c⟩ ∈ x.1.hist .ioctl → Fresh c x.1.bufferView
  settled : ¬ L .hardware → x.1.bufferView.va = none ∨ x.1.bufferView.Allocated
  gone : ¬ L .hardware → x.1.started = false →
    (armView x).verified = false ∧ x.1.bufferView.va = none

/-- What thread `t` counts on to stay while others step. -/
structure Kept (t : Tid) (x y : World × IatuRegs) : Prop where
  buffer : y.1.bufferView = x.1.bufferView
  card : y.1.ctx.card = x.1.ctx.card
  started : y.1.started = x.1.started
  lock : x.1.arcLock = some t → y.1.arcLock = some t
  arm : x.1.arcLock = some t ∨ t = .hardware → armView y = armView x

/-- The flag vouches for what it should, whatever step is next. -/
def sysmem : Protocol DriverSig Tid (World × IatuRegs) where
  allow t o x := Disciplined t o x.1 ∧ Placed t o x.1
  inv := SysmemInv
  known L x := MmioInv L x.1
  rely t x y := t.Drives → Kept t x y
  guar t x y := ∀ u, u ≠ t → u.Drives → ¬ t.Excludes u → Kept u x y
  post t x := t = .hardware → (x.1.bufferView.va = none ∨ x.1.bufferView.Allocated) ∧
    (x.1.started = false → (armView x).verified = false ∧ x.1.bufferView.va = none)

theorem Kept.refl (t : Tid) (x : World × IatuRegs) : Kept t x x :=
  ⟨rfl, rfl, rfl, id, fun _ => rfl⟩

theorem Kept.trans {t : Tid} {x y z : World × IatuRegs} (h₁ : Kept t x y) (h₂ : Kept t y z) :
    Kept t x z where
  buffer := h₂.buffer.trans h₁.buffer
  card := h₂.card.trans h₁.card
  started := h₂.started.trans h₁.started
  lock h := h₂.lock (h₁.lock h)
  arm h := (h₂.arm (h.imp_left h₁.lock)).trans (h₁.arm h)

theorem sysmem_steady : sysmem.Steady where
  refl t x _ := .refl t x
  trans _ _ _ _ h₁ h₂ ht := (h₁ ht).trans (h₂ ht)

/-! ## Steps -/

/-- Operations that leave the buffer: they allocate and free nothing, and what they store, an
arm or a reset records. -/
def Op.LeavesBuffer (o : Op) : Prop := ¬ o.movesContiguous ∧ ∀ f, o = .store f → ResetFrame f

theorem exec_bufferView {t : Tid} {o : Op} {e : Choice} {w w' : World} {a : o.Ans}
    (he : w.exec t o e = some (a, w')) (ho : o.LeavesBuffer) : w'.bufferView = w.bufferView := by
  have hf := World.exec_frame he
  rw [World.bufferView, World.bufferView, hf.ctx, hf.contiguous ho.1]
  cases o with
  | store f =>
    have hreset : ResetFrame f := ho.2 f rfl
    rw [Op.effect, hreset w.ctx]
  | locked s => rw [Op.effect, Section.run_frame w.ctx s]
  | _ => rfl

/-- The operation stores nothing, and writes no register of the iATU. -/
def Op.LeavesArm (o : Op) (w : World) : Prop :=
  (∀ f, o ≠ .store f) ∧ ∀ p off v, o = .mmioWrite p off v → p ≠ w.ctx.bar2Iatu

theorem exec_armView {t : Tid} {o : Op} {e : Choice} {x y : World × IatuRegs} {a : o.Ans}
    (he : (driverMachine.observe iatuLog).exec t o e x = some (a, y)) (ho : o.LeavesArm x.1) :
    armView y = armView x := by
  obtain ⟨he, -, hnote⟩ := watched_exec he
  have hctx := (World.exec_frame he).ctx
  rw [armView, armView, hctx, hnote]
  cases o with
  | store f => exact absurd rfl (ho.1 f)
  | locked s =>
    rw [Op.effect, Section.run_frame x.1.ctx s]
    rfl
  | mmioWrite p off v =>
    have hp := ho.2 p off v rfl
    simp only [iatuLog, if_neg hp]
    rfl
  | _ => rfl

/-- Through the pointer to another block the iATU is not written. -/
theorem apart_iatu {t : Tid} {o : Op} {p : IoPtr} {off : Nat} {b : RegBlock}
    {w : World} (hready : w.Ready) (hd : Disciplined t o w) (ho : o.register = some (p, off))
    (hp : p = w.ctx.ptr b) (hb : b ≠ .bar2Iatu) : p ≠ w.ctx.bar2Iatu := by
  obtain ⟨-, ⟨m, -, hm⟩, -⟩ := hd p off ho
  intro hiatu
  refine hb (hready.apart b .bar2Iatu (hp.symm.trans hiatu) ?_)
  rw [← hp, ← hm]
  exact Option.some_ne_none _

/-- The operation writes registers only for a thread at work, and allocates nothing. -/
structure Ordinary (t : Tid) (o : Op) : Prop where
  live : ¬ o.movesContiguous
  works : (∃ p off v, o = .mmioWrite p off v) → t.Works

section Step

variable {t : Tid} {o : Op} {e : Choice} {x y : World × IatuRegs} {a : o.Ans} {L : Tid → Prop}

/-- What an arm left changes only by a thread at work under ArcLock. -/
theorem leavesArm_of_unlocked (ht : t ≠ .hardware) (hl : L t) (ho : Ordinary t o)
    (hknown : MmioInv L x.1) (ha : sysmem.allow t o x)
    (hlock : x.1.arcLock = some t → ¬ t.Drives) : o.LeavesArm x.1 := by
  refine ⟨fun f hf => ?_, fun p off v hwrite => ?_⟩
  · subst hf
    rcases ha.2 with ⟨hworks, hheld, -⟩ | ⟨hhw, -⟩
    · exact hlock hheld hworks.drives
    · exact ht hhw
  · have hworks := ho.works ⟨_, _, _, hwrite⟩
    subst hwrite
    rcases ha.2 with ⟨hheld, -⟩ | ⟨-, -, hp⟩
    · exact absurd hworks.drives (hlock hheld)
    · exact apart_iatu (ready_of_works hworks hl hknown) ha.1 rfl hp nofun

/-- What a step of a thread other than a hardware callback leaves. -/
theorem ordinary_step (ht : t ≠ .hardware) (hl : L t) (ho : Ordinary t o) (hknown : MmioInv L x.1)
    (ha : sysmem.allow t o x)
    (he : (driverMachine.observe iatuLog).exec t o e x = some (a, y)) :
    y.1.bufferView = x.1.bufferView ∧ y.1.ctx.card = x.1.ctx.card ∧ sysmem.guar t x y := by
  have hexec := (watched_exec he).1
  have hf := World.exec_frame hexec
  have hbuffer : y.1.bufferView = x.1.bufferView := by
    refine exec_bufferView hexec ⟨ho.live, fun f hf => ?_⟩
    subst hf
    exact ha.2.reset ht
  have hcard : y.1.ctx.card = x.1.ctx.card := by
    rw [hf.ctx]
    cases o with
    | store f => exact (ha.2.same ht).1
    | locked s =>
      rw [Op.effect, Section.run_frame x.1.ctx s]
      rfl
    | _ => rfl
  refine ⟨hbuffer, hcard, fun u hu hd hx => ⟨hbuffer, hcard, hf.started,
    fun hlock => World.exec_holder (l := .arc) hexec hu hlock, fun hother => ?_⟩⟩
  refine exec_armView he (leavesArm_of_unlocked ht hl ho hknown ha fun hlock hdt => ?_)
  rcases hother with hlock' | rfl
  · exact hu (Option.some.inj (hlock'.symm.trans hlock))
  · -- beside a hardware callback nobody works
    exact hx (.inr ⟨rfl, hdt⟩)

/-- A store, if the operation is one, does not set the flag. -/
def Op.Modest (o : Op) : Prop :=
  ∀ f, o = .store f → ∀ c, (f c).sysmemVerified = true → c.sysmemVerified = true

theorem modest_of_not_store {o : Op} (h : ∀ f, o ≠ .store f) : o.Modest := fun f hf => absurd hf (h f)

/-- An operation that does not set the flag finds it set if it leaves it set. -/
theorem verified_of_modest (hm : o.Modest)
    (he : (driverMachine.observe iatuLog).exec t o e x = some (a, y))
    (hy : (armView y).verified = true) : (armView x).verified = true := by
  have hctx := (World.exec_frame (watched_exec he).1).ctx
  have hy : y.1.ctx.sysmemVerified = true := hy
  rw [hctx] at hy
  cases o with
  | store f => exact hm f rfl _ hy
  | locked s =>
    rw [Op.effect, Section.run_frame x.1.ctx s] at hy
    exact hy
  | _ => exact hy

/-- While the flag stays set, what it vouches for stays. -/
theorem armView_of_verified (ht : t ≠ .hardware) (hl : L t) (ho : Ordinary t o) (hm : o.Modest)
    (hknown : MmioInv L x.1) (ha : sysmem.allow t o x)
    (he : (driverMachine.observe iatuLog).exec t o e x = some (a, y))
    (hy : (armView y).verified = true) : armView y = armView x := by
  have hx := verified_of_modest hm he hy
  cases o with
  | store f =>
    obtain ⟨hexec, -, hnote⟩ := watched_exec he
    have hctx : y.1.ctx = f x.1.ctx := (World.exec_frame hexec).ctx
    have hseen : y.2 = x.2 := hnote
    have hy : (f x.1.ctx).sysmemVerified = true := hctx ▸ hy
    have hx : x.1.ctx.sysmemVerified = true := hx
    rw [armView, armView, hctx, hseen]
    rcases ha.2 with ⟨-, -, hf | rfl | ⟨-, hf⟩ | ⟨-, hdark, -⟩⟩ | ⟨hhw, -⟩
    · rw [hf x.1.ctx]
      rfl
    · cases hy
    · rw [DeviceContext.armView, hy, (hf x.1.ctx).1, DeviceContext.armView, hx]
    · rw [hdark] at hx
      cases hx
    · exact absurd hhw ht
  | mmioWrite p off v =>
    have hready := ready_of_works (ho.works ⟨_, _, _, rfl⟩) hl hknown
    have hx : x.1.ctx.sysmemVerified = true := hx
    refine exec_armView he ⟨nofun, fun p' off' v' hwrite => ?_⟩
    obtain ⟨rfl, rfl, rfl⟩ := Op.mmioWrite.inj hwrite
    rcases ha.2 with ⟨-, ⟨hp, -⟩ | hp | hp | ⟨-, hdark⟩⟩ | ⟨-, -, hp⟩
    · exact apart_iatu hready ha.1 rfl hp nofun
    · exact apart_iatu hready ha.1 rfl hp nofun
    · exact apart_iatu hready ha.1 rfl hp nofun
    · rw [hdark] at hx
      cases hx
    · exact apart_iatu hready ha.1 rfl hp nofun
  | _ => exact exec_armView he ⟨nofun, nofun⟩

/-- What a request has loaded is still the buffer. -/
theorem fresh_step (hinv : SysmemInv L x)
    (he : (driverMachine.observe iatuLog).exec t o e x = some (a, y))
    (hbuffer : y.1.bufferView = x.1.bufferView) :
    L .ioctl → ∀ c, ⟨.load, c⟩ ∈ y.1.hist .ioctl → Fresh c y.1.bufferView := by
  intro hl c hc
  have hexec := (watched_exec he).1
  have hf := World.exec_frame hexec
  rw [hbuffer]
  rw [hf.hist] at hc
  by_cases ht : t = .ioctl
  · subst ht
    rw [Function.update_self] at hc
    rcases List.mem_cons.mp hc with heq | hc
    · cases heq
      obtain ⟨w₁, hs, -⟩ := World.exec_step hexec
      obtain ⟨rfl, -⟩ := Prod.mk.inj (Option.some.inj hs)
      exact ⟨rfl, fun hv => ⟨(hinv.vouched hv).buffer, (hinv.vouched hv).tile⟩⟩
    · exact hinv.loaded hl c hc
  · rw [Function.update_of_ne (Ne.symm ht)] at hc
    exact hinv.loaded hl c hc

/-- A step that does not set the flag keeps what is known. -/
theorem modest_step (ht : t ≠ .hardware) (hl : L t) (ho : Ordinary t o) (hm : o.Modest)
    (hknown : MmioInv L x.1) (hinv : SysmemInv L x) (ha : sysmem.allow t o x)
    (he : (driverMachine.observe iatuLog).exec t o e x = some (a, y)) :
    SysmemInv L y ∧ sysmem.guar t x y := by
  obtain ⟨hbuffer, -, hguar⟩ := ordinary_step ht hl ho hknown ha he
  have hstarted : y.1.started = x.1.started := (World.exec_frame (watched_exec he).1).started
  refine ⟨⟨fun hy => ?_, fresh_step hinv he hbuffer, fun hhw => ?_, fun hhw hst => ?_⟩, hguar⟩
  · have hview := armView_of_verified ht hl ho hm hknown ha he hy
    rw [hbuffer, hview]
    exact hinv.vouched (hview ▸ hy)
  · rw [hbuffer]
    exact hinv.settled hhw
  · obtain ⟨hdark, hva⟩ := hinv.gone hhw (hstarted.symm.trans hst)
    refine ⟨?_, by rw [hbuffer]; exact hva⟩
    by_contra hy
    rw [verified_of_modest hm he (by simpa using hy)] at hdark
    cases hdark

end Step

/-! ## Programs that do not set the flag -/

/-- What a thread at work does beside the arm: it allocates nothing, does not set the flag, and
leaves ArcLock. -/
def modestFoot (o : Op) : Prop := ¬ o.movesContiguous ∧ o.Modest ∧ ¬ o.movesLock .arc

theorem modestFoot_of_plain {o : Op} (h : o.plain) : modestFoot o := by
  cases o <;> first
    | exact (h : False).elim
    | exact ⟨id, modest_of_not_store nofun, id⟩

section Works

variable {t : Tid} {α : Type}

/-- The thread holds ArcLock. -/
def HoldsArc (t : Tid) (x : World × IatuRegs) : Prop := x.1.arcLock = some t

theorem stable_holdsArc (ht : t.Works) : sysmem.Stable t (HoldsArc t) := by
  intro x y hr h
  have hkept : Kept t x y := hr ht.drives
  exact hkept.lock h

theorem Tid.Works.ne_hardware (ht : t.Works) : t ≠ .hardware := by
  rcases ht with rfl | rfl <;> nofun

theorem modest_keeps {K : Op → Prop} {P : World × IatuRegs → Prop} (ht : t ≠ .hardware)
    (hP : sysmem.Stable t P) (hK : ∀ o, K o → Ordinary t o ∧ o.Modest)
    (hkeep : ∀ o, K o → ∀ {e : Choice} {a : o.Ans} {w w' : World} {g g' : IatuRegs},
      w.exec t o e = some (a, w') → P (w, g) → P (w', g')) {p : Drv α} (hp : p.Only K) :
    sysmem.Keeps (driverMachine.observe iatuLog) t P p := by
  refine Keeps.of_within_known (R := sysmem) hP (fun _ _ _ _ _ _ _ _ _ => trivial) ?_ hp
  intro o ho x L e a y hx hl hinv hknown ha he
  obtain ⟨hord, hm⟩ := hK o ho
  obtain ⟨hinv', hguar⟩ := modest_step ht hl hord hm hknown hinv ha he
  exact ⟨hinv', hguar, hkeep o ho (watched_exec he).1 hx, trivial⟩

/-- What a thread at work keeps for the operations that do not set the flag. -/
theorem footRegions_sysmem (ht : t.Works) :
    FootRegions (driverMachine.observe iatuLog) sysmem t modestFoot (fun _ => True) (HoldsArc t) where
  steady := sysmem_steady
  plain _ := modestFoot_of_plain
  quiet f hf := by
    refine ⟨id, fun f' hf' c hc => ?_, id⟩
    obtain rfl := Op.store.inj hf'
    rwa [hf.verified] at hc
  unverify := by
    refine ⟨id, fun f' hf' c hc => ?_, id⟩
    obtain rfl := Op.store.inj hf'
    cases hc
  access _ _ := ⟨⟨id, modest_of_not_store (fun _ h => by cases h), id⟩, fun _ => ⟨id, modest_of_not_store (fun _ h => by cases h), id⟩⟩
  outside hp := by
    refine modest_keeps ht.ne_hardware (Stable.true t) (fun o ho => ?_) (fun _ _ _ _ _ _ _ _ _ _ => trivial) hp
    rcases ho with ⟨hlive, hm, -⟩ | hm
    · exact ⟨⟨hlive, fun _ => ht⟩, hm⟩
    · cases o <;> first
        | exact (hm : False).elim
        | exact ⟨⟨id, fun _ => ht⟩, modest_of_not_store (fun _ h => by cases h)⟩
  held hp := by
    refine modest_keeps ht.ne_hardware (stable_holdsArc ht) (fun o ho => ⟨⟨ho.1, fun _ => ht⟩, ho.2.1⟩)
      (fun o ho _ _ _ _ _ _ he h => ?_) hp
    exact ((World.exec_frame he).arcLock ho.2.2).trans h
  acquire := by
    refine Triple.vis_known (I := fun _ => HoldsArc t) (Stable.true t) (fun _ _ _ _ _ _ _ => trivial) ?_
      fun _ => Keeps.pure (stable_holdsArc ht)
    intro x L e a y _ hl hinv hknown ha he
    obtain ⟨hinv', hguar⟩ := modest_step (o := .acquire .arc) ht.ne_hardware hl ⟨id, fun _ => ht⟩
      (modest_of_not_store (fun _ h => by cases h)) hknown hinv ha he
    refine ⟨hinv', hguar, ?_⟩
    obtain ⟨w₁, hs, hw⟩ := World.exec_step (watched_exec he).1
    simp only [World.step, Option.ite_none_right_eq_some, Option.some.injEq, Prod.mk.injEq] at hs
    obtain ⟨-, -, rfl⟩ := hs
    rw [HoldsArc, hw]
    rfl
  release := by
    refine Triple.weaken (modest_keeps (K := fun o => o = .release .arc) ht.ne_hardware (Stable.true t)
      ?_ (fun _ _ _ _ _ _ _ _ _ _ => trivial) ((within_perform _).mpr rfl)) (fun _ _ => trivial)
      fun _ _ h => h
    rintro o rfl
    exact ⟨⟨id, fun _ => ht⟩, modest_of_not_store (fun _ h => by cases h)⟩

end Works

/-! ## The arm -/

section Arm

variable {t : Tid} {card : Card} {α : Type} {Q : α → World × IatuRegs → Prop}
  {Φ : BufferView → ArmView → Prop}

/-- The thread holds ArcLock on the card, and `Φ` holds of what it has done so far. -/
structure Under (t : Tid) (card : Card) (Φ : BufferView → ArmView → Prop) (x : World × IatuRegs) :
    Prop where
  lock : x.1.arcLock = some t
  card : x.1.ctx.card = card
  state : Φ x.1.bufferView (armView x)

theorem stable_under (ht : t.Works) : sysmem.Stable t (Under t card Φ) := by
  intro x y hr h
  have hkept : Kept t x y := hr ht.drives
  refine ⟨hkept.lock h.lock, hkept.card.trans h.card, ?_⟩
  rw [hkept.buffer, hkept.arm (.inl h.lock)]
  exact h.state

/-- One operation of the arm. -/
theorem under_vis {o : Op} {k : o.Ans → Drv α} {Ψ : o.Ans → BufferView → ArmView → Prop}
    (ht : t.Works) (hlive : ¬ o.movesContiguous) (hlock : ¬ o.movesLock .arc)
    (hstep : ∀ x L e a y, Under t card Φ x → L t → MmioInv L x.1 → SysmemInv L x →
      sysmem.allow t o x → (driverMachine.observe iatuLog).exec t o e x = some (a, y) →
      Ψ a x.1.bufferView (armView y) ∧
        ((armView y).verified = true → Vouched x.1.bufferView (armView y)))
    (hk : ∀ a, sysmem.Triple (driverMachine.observe iatuLog) t (Under t card (Ψ a)) (k a) Q) :
    sysmem.Triple (driverMachine.observe iatuLog) t (Under t card Φ) (.vis o k) Q := by
  refine Triple.vis_known (I := fun a => Under t card (Ψ a)) (stable_under ht)
    (fun _ _ _ _ _ _ _ => trivial) ?_ hk
  intro x L e a y hx hl hinv hknown ha he
  have hframe := World.exec_frame (watched_exec he).1
  obtain ⟨hbuffer, hcard, hguar⟩ := ordinary_step ht.ne_hardware hl ⟨hlive, fun _ => ht⟩ hknown ha he
  obtain ⟨hstate, hvouched⟩ := hstep x L e a y hx hl hknown hinv ha he
  rw [← hbuffer] at hstate hvouched
  refine ⟨⟨hvouched, fresh_step hinv he hbuffer, fun hhw => ?_, fun hhw hst => ?_⟩, hguar,
    (hframe.arcLock hlock).trans hx.lock, hcard.trans hx.card, hstate⟩
  · rw [hbuffer]
    exact hinv.settled hhw
  · have hva := (hinv.gone hhw (hframe.started.symm.trans hst)).2
    rw [← hbuffer] at hva
    refine ⟨Bool.eq_false_iff.mpr fun hy => ?_, hva⟩
    obtain ⟨va, hsome, -⟩ := (hvouched hy).buffer.live
    rw [hva] at hsome
    cases hsome

/-- A store of the arm. -/
theorem under_store {f : DeviceContext → DeviceContext} {k : Unit → Drv α}
    {Ψ : BufferView → ArmView → Prop} (ht : t.Works)
    (hstep : ∀ b (c : DeviceContext) g, Φ b (c.armView g) → Ψ b ((f c).armView g) ∧
      ((f c).sysmemVerified = true → Vouched b ((f c).armView g)))
    (hk : sysmem.Triple (driverMachine.observe iatuLog) t (Under t card Ψ) (k ()) Q) :
    sysmem.Triple (driverMachine.observe iatuLog) t (Under t card Φ) (.vis (.store f) k) Q := by
  refine under_vis (Ψ := fun _ => Ψ) ht id id (fun x L e a y hx _ _ _ _ he => ?_) fun _ => hk
  obtain ⟨hexec, -, hnote⟩ := watched_exec he
  have hctx : y.1.ctx = f x.1.ctx := (World.exec_frame hexec).ctx
  have hseen : y.2 = x.2 := hnote
  rw [armView, hctx, hseen]
  exact hstep _ _ _ hx.state

/-- A store of the arm before its verdict: no buffer is advertised. -/
theorem under_record {f : DeviceContext → DeviceContext} {k : Unit → Drv α}
    {Ψ : BufferView → ArmView → Prop} (ht : t.Works) (hdark : ∀ b a, Φ b a → a.verified = false)
    (hflag : ∀ c, (f c).sysmemVerified = c.sysmemVerified)
    (hstep : ∀ b (c : DeviceContext) g, Φ b (c.armView g) → Ψ b ((f c).armView g))
    (hk : sysmem.Triple (driverMachine.observe iatuLog) t (Under t card Ψ) (k ()) Q) :
    sysmem.Triple (driverMachine.observe iatuLog) t (Under t card Φ) (.vis (.store f) k) Q := by
  refine under_store ht (fun b c g h => ⟨hstep b c g h, fun hy => ?_⟩) hk
  have hd : c.sysmemVerified = false := hdark _ _ h
  rw [hflag, hd] at hy
  cases hy

/-- An operation that leaves what the arm has done. -/
theorem under_still {o : Op} {k : o.Ans → Drv α} (ht : t.Works) (hlive : ¬ o.movesContiguous)
    (hlock : ¬ o.movesLock .arc) (harm : ∀ w, o.LeavesArm w)
    (hk : ∀ a, sysmem.Triple (driverMachine.observe iatuLog) t (Under t card Φ) (k a) Q) :
    sysmem.Triple (driverMachine.observe iatuLog) t (Under t card Φ) (.vis o k) Q := by
  refine under_vis (Ψ := fun _ => Φ) ht hlive hlock (fun x L e a y hx _ _ hinv _ he => ?_) hk
  rw [exec_armView he (harm x.1)]
  exact ⟨hx.state, hinv.vouched⟩

/-- What a load shows of the buffer. -/
structure Loaded (c : DeviceContext) (Φ : BufferView → ArmView → Prop) (b : BufferView)
    (a : ArmView) : Prop where
  state : Φ b a
  va : c.sysmemVa = b.va
  size : c.sysmemSize = b.size
  phys : c.sysmemPhys = b.phys
  settled : b.va = none ∨ b.Allocated

theorem seen_of_load {L : Tid → Prop} {x : World × IatuRegs} (ht : t.Works) (hl : L t)
    (hknown : MmioInv L x.1) (hcard : x.1.ctx.card = card) : seen card .load x.1.ctx := by
  have hready := ready_of_works ht hl hknown
  subst hcard
  exact ⟨rfl, hready.route⟩

theorem under_load {k : DeviceContext → Drv α} (ht : t.Works)
    (hk : ∀ c, seen card .load c →
      sysmem.Triple (driverMachine.observe iatuLog) t (Under t card (Loaded c Φ)) (k c) Q) :
    sysmem.Triple (driverMachine.observe iatuLog) t (Under t card Φ) (.vis .load k) Q := by
  refine under_vis (Ψ := fun c b a => seen card .load c ∧ Loaded c Φ b a) ht id id ?_ fun c => ?_
  · intro x L e c y hx hl hknown hinv _ he
    have hview := exec_armView (o := .load) he ⟨nofun, nofun⟩
    obtain ⟨w₁, hs, -⟩ := World.exec_step (watched_exec he).1
    obtain ⟨rfl, -⟩ := Prod.mk.inj (Option.some.inj hs)
    have hhw : ¬ L .hardware := by
      intro hh
      rcases ht with rfl | rfl
      · exact (hknown.alone hh).1 hl
      · exact (hknown.alone hh).2 hl
    rw [hview]
    exact ⟨⟨seen_of_load ht hl hknown hx.card, hx.state, rfl, rfl, rfl, hinv.settled hhw⟩, hinv.vouched⟩
  · refine Triple.assume (φ := seen card .load c) (fun _ hx => hx.state.1) fun hc => ?_
    exact Triple.weaken (hk c hc) (fun _ hx => ⟨hx.lock, hx.card, hx.state.2⟩) fun _ _ hq => hq

/-- What the loopback does: it works through the kernel window and records what it observed. -/
def loopFoot (card : Card) : Op → Prop
  | .bufferWrite _ _ => True
  | .store f => QuietFrame f ∨ ProbeFrame f
  | o => workFoot card False o

theorem mailScope_loopFoot (card : Card) : MailScope (seen card) (loopFoot card) := by
  refine (mailScope_workFoot card False).mono fun o ho => ?_
  cases o with
  | store f => exact .inl (ho.1.resolve_right fun h => h.1)
  | bufferWrite => trivial
  | _ => exact ho

/-- Code that works through the kernel window leaves what the arm has done. -/
theorem loop_keeps (ht : t.Works) {p : Drv α} (hp : p.Within (seen card) (loopFoot card)) :
    sysmem.Keeps (driverMachine.observe iatuLog) t (Under t card Φ) p := by
  have hfoot : ∀ o, loopFoot card o → ¬ o.movesContiguous ∧ ¬ o.movesLock .arc := by
    intro o ho
    cases o <;> first | exact ⟨id, id⟩ | exact (ho : False).elim
  refine Keeps.of_within_known (R := sysmem) (stable_under ht) (fun _ _ _ _ _ _ _ _ _ => trivial) ?_ hp
  intro o ho x L e a y hx hl hinv hknown ha he
  obtain ⟨hlive, hlock⟩ := hfoot o ho
  have hready := ready_of_works ht hl hknown
  have hview : armView y = armView x := by
    cases o with
    | store f =>
      obtain ⟨hexec, -, hnote⟩ := watched_exec he
      have hctx : y.1.ctx = f x.1.ctx := (World.exec_frame hexec).ctx
      have hseen : y.2 = x.2 := hnote
      rw [armView, hctx, hseen, armView]
      rcases ho with hf | hf
      · rw [hf x.1.ctx]
        rfl
      · rw [hf x.1.ctx]
        rfl
    | mmioWrite p off v =>
      refine exec_armView he ⟨nofun, fun p' off' v' hwrite => ?_⟩
      obtain ⟨rfl, rfl, rfl⟩ := Op.mmioWrite.inj hwrite
      have hptr : ∀ b, card.ptr b = x.1.ctx.ptr b := fun b =>
        congrFun (congrArg Card.ptr hx.card.symm) b
      rcases ho.2 with ⟨hp, -⟩ | hp | hp | ⟨harming, -⟩
      · exact apart_iatu hready ha.1 rfl (hp.trans (hptr _)) nofun
      · exact apart_iatu hready ha.1 rfl (hp.trans (hptr _)) nofun
      · exact apart_iatu hready ha.1 rfl (hp.trans (hptr _)) nofun
      · exact harming.elim
    | _ => exact exec_armView he ⟨nofun, nofun⟩
  obtain ⟨hbuffer, hcard, hguar⟩ := ordinary_step ht.ne_hardware hl ⟨hlive, fun _ => ht⟩ hknown ha he
  have hframe := World.exec_frame (watched_exec he).1
  refine ⟨⟨?_, fresh_step hinv he hbuffer, ?_, ?_⟩, hguar,
    ⟨(hframe.arcLock hlock).trans hx.lock, hcard.trans hx.card, ?_⟩, ?_⟩
  · rw [hview, hbuffer]
    exact hinv.vouched
  · rw [hbuffer]
    exact hinv.settled
  · rw [hview, hbuffer, hframe.started]
    exact hinv.gone
  · rw [hview, hbuffer]
    exact hx.state
  · cases o with
    | load =>
      obtain ⟨w₁, hs, -⟩ := World.exec_step (watched_exec he).1
      obtain ⟨rfl, -⟩ := Prod.mk.inj (Option.some.inj hs)
      exact seen_of_load ht hl hknown hx.card
    | _ => trivial

/-! ### The stages -/

/-- No buffer is advertised. -/
def Dark (_ : BufferView) (a : ArmView) : Prop := a.verified = false

/-- The tile is known and there is a buffer, which is not advertised. -/
structure Tiled (b : BufferView) (a : ArmView) : Prop where
  dark : a.verified = false
  buffer : b.Allocated
  tile : a.tile = 2 ∨ a.tile = 11

/-- The buffer is as a load has shown it, and the iATU's registers hold what was written to them
last, after whatever they held. -/
structure Wrote (c : DeviceContext) (es : List (Nat × UInt32)) (b : BufferView) (a : ArmView) :
    Prop extends Tiled b a where
  size : c.sysmemSize = b.size
  phys : c.sysmemPhys = b.phys
  regs : ∃ g, a.regs = storeAll g es

/-- The verdict so far: nothing is advertised, and on success all is set up. -/
def Judged (status : NtStatus) (b : BufferView) (a : ArmView) : Prop :=
  Dark b a ∧ (status.ok = true → Aimed b a)

theorem stop_sysmem {Ψ : α → BufferView → ArmView → Prop} (ht : t.Works) {s : α}
    (h : ∀ b a, Φ b a → Ψ s b a) : sysmem.Triple (driverMachine.observe iatuLog) t (Under t card Φ)
      (Pure.pure s : Drv α) fun s => Under t card (Ψ s) :=
  Triple.pure (stable_under ht) fun _ hx => ⟨hx.lock, hx.card, h _ _ hx.state⟩

theorem writeRegisters_sysmem (ht : t.Works) (c : DeviceContext) (es done : List (Nat × UInt32)) :
    sysmem.Triple (driverMachine.observe iatuLog) t (Under t card (Wrote c done))
      (writeRegisters (card.ptr .bar2Iatu) es) fun _ => Under t card (Wrote c (done ++ es)) := by
  induction es generalizing done with
  | nil => exact stop_sysmem (Ψ := fun _ => _) ht fun _ _ h => (List.append_nil done).symm ▸ h
  | cons e es ih =>
    refine under_vis (Ψ := fun _ => Wrote c (done ++ [e])) ht id id ?_ fun _ => ?_
    · intro x L ch a y hx _ _ _ _ he
      obtain ⟨hexec, -, hnote⟩ := watched_exec he
      have hctx : y.1.ctx = x.1.ctx := (World.exec_frame hexec).ctx
      have hptr : card.ptr .bar2Iatu = x.1.ctx.bar2Iatu :=
        (congrFun (congrArg Card.ptr hx.card) .bar2Iatu).symm
      have hseen : y.2 = leStore x.2 e.1 4 e.2.toNat := by
        simp only [iatuLog, if_pos hptr] at hnote
        exact hnote
      obtain ⟨htiled, hsize, hphys, g, hregs⟩ := hx.state
      have hregs : x.2 = storeAll g done := hregs
      rw [armView, hctx, hseen, hregs]
      refine ⟨⟨⟨htiled.dark, htiled.buffer, htiled.tile⟩, hsize, hphys, g, ?_⟩, fun hy => ?_⟩
      · exact (storeAll_append g done [e]).symm
      · have hdark : x.1.ctx.sysmemVerified = false := htiled.dark
        have hy : x.1.ctx.sysmemVerified = true := hy
        rw [hdark] at hy
        cases hy
    · have hrest := ih (done ++ [e])
      rwa [List.append_assoc] at hrest

/-- The sizes tried fill at least one page, and fit a word. -/
theorem tier_ne_one {size : UInt64} (h : size ∈ sysmemTiers) : size - 1 ≠ 0 := by
  simp only [sysmemTiers, List.mem_cons, List.not_mem_nil, or_false] at h
  rcases h with rfl | rfl | rfl <;> decide

/-- Programming region 0 for the buffer a load has shown. -/
theorem iatuProgramOutbound_sysmem (ht : t.Works) (c : DeviceContext) :
    sysmem.Triple (driverMachine.observe iatuLog) t (Under t card (Loaded c Tiled))
      (iatuProgramOutbound 0 0 (c.sysmemSize - 1) c.sysmemPhys)
      fun status => Under t card (Judged status) := by
  have hstop : ∀ {s : NtStatus}, ¬ s.ok → sysmem.Triple (driverMachine.observe iatuLog) t
      (Under t card (Loaded c Tiled)) (Pure.pure s : Drv NtStatus)
      fun status => Under t card (Judged status) :=
    fun hs => stop_sysmem (Ψ := Judged) ht
      fun _ _ h => ⟨h.state.dark, fun hok => absurd hok hs⟩
  rw [iatuProgramOutbound_eq]
  refine Triple.ite (fun _ => hstop (by decide)) fun _ => Triple.ite (fun _ => hstop (by decide)) fun _ => ?_
  refine under_load ht fun c' hc' => ?_
  have hptr : c'.bar2Iatu = card.ptr .bar2Iatu := congrFun (congrArg Card.ptr hc'.1) .bar2Iatu
  have hwrites : sysmem.Triple (driverMachine.observe iatuLog) t (Under t card (Wrote c []))
      (writeRegisters c'.bar2Iatu (iatuWrites 0 0 (c.sysmemSize - 1) c.sysmemPhys))
      fun _ => Under t card (Wrote c (iatuWrites 0 0 (c.sysmemSize - 1) c.sysmemPhys)) := by
    rw [hptr]
    exact writeRegisters_sysmem ht c _ []
  refine Triple.bind (p := writeRegisters _ _) sysmem_steady
    (Triple.weaken hwrites (fun x hx => ?_) fun _ _ hq => hq) fun _ => ?_
  · obtain ⟨hlock, hcard, h⟩ := hx
    exact ⟨hlock, hcard, h.state.state, h.state.size, h.state.phys, x.2, rfl⟩
  · refine under_record (Ψ := fun b a => Dark b a ∧ Aimed b a) ht (fun _ _ h => h.dark) (fun _ => rfl)
      (fun b d g h => ?_) ?_
    · have hne : (if c.sysmemSize - 1 = 0 then 0 else iatuRegionEn : UInt32) ≠ 0 := by
        rw [if_neg (tier_ne_one (h.size ▸ h.buffer.tier))]
        decide
      obtain ⟨g₀, hregs⟩ := h.regs
      have hregs : g = storeAll g₀ (iatuWrites 0 0 (c.sysmemSize - 1) c.sysmemPhys) := hregs
      refine ⟨h.dark, h.buffer, h.tile, ?_, ?_⟩
      · have hwindow : b.window = ⟨0, c.sysmemSize - 1, c.sysmemPhys,
            (if c.sysmemSize - 1 = 0 then 0 else iatuRegionEn) ≠ 0⟩ := by
          rw [decide_eq_true hne, BufferView.window, h.size, h.phys]
        rw [hwindow]
        exact Function.update_self 0 _ d.outboundIatu
      · show outboundRegion g 0 = b.window
        have hlimit := tier_ne_one (h.size ▸ h.buffer.tier)
        rw [hregs, outboundRegion_writes, decide_eq_true hlimit, BufferView.window, h.size, h.phys]
    · exact stop_sysmem (Ψ := Judged) ht
        fun _ _ h => ⟨h.1, fun _ => h.2⟩

/-- The tile is read from the card. -/
theorem sysmemDetectPcieTile_sysmem (ht : t.Works) :
    sysmem.Triple (driverMachine.observe iatuLog) t
      (Under t card fun b a => Dark b a ∧ b.Allocated) sysmemDetectPcieTile
      fun status => Under t card fun b a => Dark b a ∧ (status.ok = true → Tiled b a) := by
  let Ψ : NtStatus → BufferView → ArmView → Prop :=
    fun status b a => Dark b a ∧ (status.ok = true → Tiled b a)
  have hstop : ∀ {s : NtStatus}, ¬ s.ok → sysmem.Triple (driverMachine.observe iatuLog) t
      (Under t card fun b a => Dark b a ∧ b.Allocated) (Pure.pure s : Drv NtStatus)
      fun status => Under t card (Ψ status) :=
    fun hs => stop_sysmem (Ψ := Ψ) ht fun _ _ h => ⟨h.1, fun hok => absurd hok hs⟩
  refine under_still ht id id (fun _ => ⟨nofun, nofun⟩) fun c => Triple.ite (fun _ => hstop (by decide)) fun _ => ?_
  refine under_still ht id id (fun _ => ⟨nofun, nofun⟩) fun nocId => ?_
  refine under_record (Ψ := fun b a => Dark b a ∧ b.Allocated) ht (fun _ _ h => h.1) (fun _ => rfl)
    (fun _ _ _ h => h) ?_
  refine Triple.ite (fun _ => hstop (by decide)) fun _ => Triple.ite (fun _ => hstop (by decide)) fun htile => ?_
  refine under_record (Ψ := Tiled) ht (fun _ _ h => h.1) (fun _ => rfl) (fun b d g h => ⟨h.1, h.2, ?_⟩) ?_
  · by_contra hne
    exact htile (not_or.mp hne)
  · exact stop_sysmem (Ψ := Ψ) ht fun _ _ h => ⟨h.dark, fun _ => h⟩

/-- The checks of the arm: on success everything is set up, and nothing is advertised yet. -/
theorem armChecks_sysmem (ht : t.Works) :
    sysmem.Triple (driverMachine.observe iatuLog) t (Under t card Dark) armChecks
      fun status => Under t card (Judged status) := by
  have hstop : ∀ {Φ : BufferView → ArmView → Prop} {s : NtStatus}, (∀ b a, Φ b a → Dark b a) → ¬ s.ok →
      sysmem.Triple (driverMachine.observe iatuLog) t (Under t card Φ) (Pure.pure s : Drv NtStatus)
        fun status => Under t card (Judged status) :=
    fun hd hs => stop_sysmem (Ψ := Judged) ht fun _ _ h => ⟨hd _ _ h, fun hok => absurd hok hs⟩
  refine under_load ht fun c hc => Triple.ite (fun _ => ?_) fun hva => Triple.ite (fun _ => ?_) fun hregs => ?_
  · exact under_record (Ψ := Dark) ht (fun _ _ h => h.state) (fun _ => rfl) (fun _ _ _ h => h.state)
      (hstop (fun _ _ h => h) (by decide))
  · exact under_record (Ψ := Dark) ht (fun _ _ h => h.state) (fun _ => rfl) (fun _ _ _ h => h.state)
      (hstop (fun _ _ h => h) (by decide))
  have hs : SeenWindow (seen card) := seenWindow_of_not_or hc fun hn => hregs (.inr hn)
  refine under_record (Ψ := fun b a => Dark b a ∧ b.Allocated) ht (fun _ _ h => h.state) (fun _ => rfl)
    (fun b d g h => ⟨h.state, h.settled.resolve_left fun hn => hva (h.va.trans hn)⟩) ?_
  refine Triple.bind (p := sysmemDetectPcieTile) sysmem_steady (sysmemDetectPcieTile_sysmem ht) fun status =>
    Triple.ite (fun hbad => hstop (fun _ _ h => h.1) (by simpa using hbad)) fun hok => ?_
  have hok : status.ok = true := by simpa using hok
  refine under_record (Ψ := Tiled) ht (fun _ _ h => h.1) (fun _ => rfl)
    (fun b d g h => ⟨h.1, (h.2 hok).buffer, (h.2 hok).tile⟩) ?_
  refine under_load ht fun c _ => ?_
  refine Triple.bind (p := iatuProgramOutbound 0 0 _ _) sysmem_steady (iatuProgramOutbound_sysmem ht c)
    fun status => Triple.ite (fun hbad => hstop (fun _ _ h => h.1) (by simpa using hbad)) fun hok => ?_
  have hok : status.ok = true := by simpa using hok
  refine under_record (Ψ := fun b a => Dark b a ∧ Aimed b a) ht (fun _ _ h => h.1) (fun _ => rfl)
    (fun b d g h => ⟨h.1, (h.2 hok).buffer, (h.2 hok).tile, (h.2 hok).outbound, (h.2 hok).region⟩) ?_
  refine Triple.weaken (loop_keeps ht (sysmemLoopbackVerify_within (mailScope_loopFoot card)
    (fun _ => .inr) (fun _ _ => trivial) hs)) (fun _ hx => hx) fun status x hx => ?_
  exact ⟨hx.lock, hx.card, hx.state.1, fun _ => hx.state.2⟩

/-- The verdict: on success the flag is set, and vouches for what is set up. -/
theorem setVerified_sysmem (ht : t.Works) (status : NtStatus) :
    sysmem.Triple (driverMachine.observe iatuLog) t (Under t card (Judged status)) (setVerified status)
      fun _ => HoldsArc t := by
  refine Triple.ite (fun _ => Triple.pure (stable_under ht) fun _ h => h.lock) fun hok => ?_
  have hok : status.ok = true := by simpa using hok
  refine under_record (Ψ := fun b a => Dark b a ∧ Vouched b a) ht (fun _ _ h => h.1) (fun _ => rfl)
    (fun b d g h => ⟨h.1, ⟨(h.2 hok).buffer, (h.2 hok).tile, (h.2 hok).outbound, (h.2 hok).region⟩, rfl⟩) ?_
  refine under_store (Ψ := fun _ _ => True) ht (fun b d g h => ⟨trivial, fun _ => ?_⟩)
    (Triple.pure (stable_under ht) fun _ h => h.lock)
  exact ⟨⟨h.2.buffer, h.2.tile, h.2.outbound, h.2.region⟩, h.2.stage⟩

/-- The whole arm. -/
theorem armLocked_sysmem (ht : t.Works) :
    sysmem.Keeps (driverMachine.observe iatuLog) t (HoldsArc t) armLocked := by
  intro x hx
  have harm : sysmem.Triple (driverMachine.observe iatuLog) t
      (Under t x.1.ctx.card fun _ _ => True) armLocked fun _ => HoldsArc t := by
    refine under_store (Ψ := Dark) ht (fun _ _ _ _ => ⟨rfl, nofun⟩) ?_
    refine under_still ht id id (fun _ => ⟨nofun, nofun⟩) fun c => ?_
    refine Triple.ite (fun _ => Triple.pure (stable_under ht) fun _ h => h.lock) fun _ => ?_
    rw [armStages_eq, bind_assoc]
    refine Triple.bind (p := armChecks) sysmem_steady (armChecks_sysmem ht) fun status => ?_
    refine Triple.bind (p := setVerified status) sysmem_steady (setVerified_sysmem ht status) fun status => ?_
    exact (footRegions_sysmem ht).held ⟨(footRegions_sysmem ht).quiet _ fun _ => rfl, fun _ _ => trivial⟩
  exact harm x ⟨hx, rfl, trivial⟩

end Arm

/-! ## The requests -/

theorem configScope_modest : ConfigScope modestFoot where
  plain _ := modestFoot_of_plain
  setBusData _ _ _ := ⟨id, modest_of_not_store nofun, id⟩
  setFileGen _ _ := ⟨id, modest_of_not_store nofun, id⟩
  store f hf := by
    refine ⟨id, fun f' hf' c hc => ?_, id⟩
    obtain rfl := Op.store.inj hf'
    exact (hf c).2 hc

theorem requestRegions_sysmem (fileObject : Option FileObject) :
    RequestRegions (driverMachine.observe iatuLog) sysmem fileObject (fun _ => True) (fun _ => True)
      (fun _ => True) (HoldsArc .ioctl) := by
  have hfoot := footRegions_sysmem ioctl_works
  have harc := hfoot.arcRegions (armLocked_sysmem ioctl_works)
  have hlocked : ∀ {s : Section}, modestFoot (.locked s) := ⟨id, modest_of_not_store nofun, id⟩
  refine hfoot.requestRegions (fun o ho => ?_) ⟨⟨id, modest_of_not_store nofun, nofun⟩,
    ⟨id, modest_of_not_store nofun, nofun⟩⟩ (armLocked_sysmem ioctl_works) ?_ ?_
  · cases o with
    | acquire l => exact .inr ho
    | release l => exact .inr ho
    | store | allocContiguous | freeContiguous => exact (ho : False).elim
    | _ => exact .inl ⟨id, modest_of_not_store nofun, id⟩
  · have hreset : sysmem.Triple (driverMachine.observe iatuLog) .ioctl (HoldsArc .ioctl) (armReset fileObject)
        fun _ => HoldsArc .ioctl :=
      hfoot.held (armReset_only configScope_modest hlocked (fun _ => ⟨id, modest_of_not_store nofun, id⟩) _)
    refine harc.ioctlResetDevice (B := fun _ => True) ?_ hfoot.acquire hreset
    refine Triple.weaken (hfoot.keeps ((within_perform _).mpr hlocked)) (fun _ _ => trivial) fun busy _ _ => ?_
    cases busy <;> trivial
  · exact hfoot.held (recoverReset_within configScope_modest.toBusScope.restoring
      (fun _ => configScope_modest.store _ fun _ => ⟨rfl, id⟩)
      (configScope_modest.store _ fun _ => ⟨rfl, id⟩) hfoot.access)

/-! ## Arrival and departure -/

section Hardware

variable {α : Type} {Q : α → World × IatuRegs → Prop} {Φ : BufferView → ArmView → Prop}

/-- The hardware is there or not, and `Φ` holds of the buffer and of what an arm left. -/
structure Stands (started : Bool) (Φ : BufferView → ArmView → Prop) (x : World × IatuRegs) : Prop where
  started : x.1.started = started
  state : Φ x.1.bufferView (armView x)

variable {st : Bool}

theorem stable_stands : sysmem.Stable .hardware (Stands st Φ) := by
  intro x y hr h
  have hkept : Kept .hardware x y := hr trivial
  refine ⟨hkept.started.trans h.started, ?_⟩
  rw [hkept.buffer, hkept.arm (.inr rfl)]
  exact h.state

/-- One operation of a hardware callback, which runs alone. -/
theorem stands_vis {o : Op} {k : o.Ans → Drv α} {Ψ : o.Ans → BufferView → ArmView → Prop}
    (hstep : ∀ (x : World × IatuRegs) e a (y : World × IatuRegs),
      ((armView x).verified = true → Vouched x.1.bufferView (armView x)) →
      Φ x.1.bufferView (armView x) →
      (driverMachine.observe iatuLog).exec .hardware o e x = some (a, y) →
      Ψ a y.1.bufferView (armView y) ∧
        ((armView y).verified = true → Vouched y.1.bufferView (armView y)))
    (hk : ∀ a, sysmem.Triple (driverMachine.observe iatuLog) .hardware (Stands st (Ψ a)) (k a) Q) :
    sysmem.Triple (driverMachine.observe iatuLog) .hardware (Stands st Φ) (.vis o k) Q := by
  refine Triple.vis_known (I := fun a => Stands st (Ψ a)) stable_stands (fun _ _ _ _ _ _ _ => trivial) ?_ hk
  intro x L e a y hx hl hinv hknown _ he
  obtain ⟨hstate, hvouched⟩ := hstep x e a y hinv.vouched hx.state he
  have hstarted := (World.exec_frame (watched_exec he).1).started
  refine ⟨⟨hvouched, fun hi => absurd hi (hknown.alone hl).1, fun hn => absurd hl hn,
    fun hn => absurd hl hn⟩, fun u _ hd hx => ?_,
    hstarted.trans hx.started, hstate⟩
  exact absurd (.inl ⟨rfl, hd⟩) hx

/-- Operations that leave the buffer and what an arm left. -/
def sparesFoot : Op → Prop
  | .store f => ∀ c, ((f c).sysmemVa = c.sysmemVa ∧ (f c).sysmemPhys = c.sysmemPhys ∧
      (f c).sysmemSize = c.sysmemSize) ∧ ∀ g, (f c).armView g = c.armView g
  | .mmioWrite _ _ _ | .allocContiguous _ _ _ | .freeContiguous _ _ => False
  | _ => True

theorem exec_spares {t : Tid} {o : Op} {e : Choice} {a : o.Ans} {x y : World × IatuRegs}
    (ho : sparesFoot o) (he : (driverMachine.observe iatuLog).exec t o e x = some (a, y)) :
    y.1.bufferView = x.1.bufferView ∧ armView y = armView x := by
  obtain ⟨hexec, -, hnote⟩ := watched_exec he
  have hf := World.exec_frame hexec
  cases o with
  | store f =>
    obtain ⟨⟨hva, hphys, hsize⟩, harm⟩ := ho x.1.ctx
    have hctx : y.1.ctx = f x.1.ctx := hf.ctx
    have hseen : y.2 = x.2 := hnote
    rw [World.bufferView, armView, hctx, hseen, hva, hphys, hsize, hf.contiguous id]
    exact ⟨rfl, harm x.2⟩
  | mmioWrite | allocContiguous | freeContiguous => exact (ho : False).elim
  | _ => exact ⟨exec_bufferView hexec ⟨id, nofun⟩, exec_armView he ⟨nofun, nofun⟩⟩

theorem spares_keeps {p : Drv α} (hp : p.Only sparesFoot) :
    sysmem.Keeps (driverMachine.observe iatuLog) .hardware (Stands st Φ) p := by
  induction p with
  | pure a => exact Keeps.pure stable_stands
  | vis o k ih =>
    refine stands_vis (Ψ := fun _ => Φ) (fun x e a y hvouched hstate he => ?_) fun a => ih a (hp.2 a trivial)
    obtain ⟨hbuffer, harm⟩ := exec_spares hp.1 he
    rw [hbuffer, harm]
    exact ⟨hstate, hvouched⟩

/-- No buffer is advertised, and there is none. -/
structure Bare (b : BufferView) (a : ArmView) : Prop where
  dark : a.verified = false
  va : b.va = none

/-- Operations that give no address to the buffer and do not set the flag. -/
def bareFoot : Op → Prop
  | .store f => HardwareFrame f ∧ ∀ c, (f c).sysmemVa = c.sysmemVa
  | .mmioWrite _ _ _ | .allocContiguous _ _ _ | .freeContiguous _ _ => False
  | _ => True

theorem bare_keeps {p : Drv α} (hp : p.Only bareFoot) :
    sysmem.Keeps (driverMachine.observe iatuLog) .hardware (Stands st Bare) p := by
  induction p with
  | pure a => exact Keeps.pure stable_stands
  | vis o k ih =>
    refine stands_vis (Ψ := fun _ => Bare) (fun x e a y _ hstate he => ?_) fun a => ih a (hp.2 a trivial)
    have hbare : Bare y.1.bufferView (armView y) := by
      cases o with
      | store f =>
        obtain ⟨hf, hva⟩ := hp.1
        have hctx : y.1.ctx = f x.1.ctx := (World.exec_frame (watched_exec he).1).ctx
        refine ⟨?_, ?_⟩
        · have hdark : x.1.ctx.sysmemVerified = false := hstate.dark
          show y.1.ctx.sysmemVerified = false
          rw [hctx]
          by_contra hy
          rw [(hf x.1.ctx).2 (by simpa using hy)] at hdark
          cases hdark
        · show y.1.ctx.sysmemVa = none
          rw [hctx, hva]
          exact hstate.va
      | mmioWrite | allocContiguous | freeContiguous => exact (hp.1 : False).elim
      | _ =>
        have hspares := fun ho => exec_spares ho he
        obtain ⟨hbuffer, harm⟩ := hspares trivial
        rw [hbuffer, harm]
        exact hstate
    refine ⟨hbare, fun hy => ?_⟩
    rw [hbare.dark] at hy
    cases hy

theorem identityScope_bare : IdentityScope bareFoot where
  silent o ho := by cases o <;> first | exact (ho : False).elim | trivial
  store _ hf _ _ _ hrep := ⟨hf, fun c => (hrep c).1.2.2⟩
  queryInterface := trivial
  dereferenceInterface := trivial

/-- The allocator has given out this much at the address, if it is one. -/
def GivenOut (p : IoPtr) (size : UInt64) (b : BufferView) : Prop :=
  ∀ v, p = some v → ∃ phys, b.live.find? (fun m => some m.va == p) = some ⟨v, phys, size⟩

/-- No buffer is advertised; its address is `p`, and its size one of the tiers given out there. -/
structure Found (p : IoPtr) (b : BufferView) (a : ArmView) : Prop where
  dark : a.verified = false
  va : b.va = p
  tier : p ≠ none → b.size ∈ sysmemTiers
  live : GivenOut p b.size b

theorem dark_vouched {b : BufferView} {a : ArmView} (hd : a.verified = false) :
    a.verified = true → Vouched b a := by
  intro hy
  rw [hd] at hy
  cases hy

/-- A store of a hardware callback while no buffer is advertised. -/
theorem stands_record {f : DeviceContext → DeviceContext} {k : Unit → Drv α}
    {Ψ : BufferView → ArmView → Prop}
    (hstep : ∀ (c : DeviceContext) live g, Φ ⟨c.sysmemVa, c.sysmemPhys, c.sysmemSize, live⟩ (c.armView g) →
      (f c).sysmemVerified = false ∧
        Ψ ⟨(f c).sysmemVa, (f c).sysmemPhys, (f c).sysmemSize, live⟩ ((f c).armView g))
    (hk : sysmem.Triple (driverMachine.observe iatuLog) .hardware (Stands st Ψ) (k ()) Q) :
    sysmem.Triple (driverMachine.observe iatuLog) .hardware (Stands st Φ) (.vis (.store f) k) Q := by
  refine stands_vis (Ψ := fun _ => Ψ) (fun x e a y _ hstate he => ?_) fun _ => hk
  obtain ⟨hexec, -, hnote⟩ := watched_exec he
  have hf := World.exec_frame hexec
  have hctx : y.1.ctx = f x.1.ctx := hf.ctx
  have hseen : y.2 = x.2 := hnote
  obtain ⟨hdark, hnext⟩ := hstep x.1.ctx x.1.contiguous x.2 hstate
  rw [World.bufferView, armView, hctx, hseen, hf.contiguous id]
  exact ⟨hnext, dark_vouched hdark⟩

/-- An allocation gives out what was asked at the address it answers. -/
theorem givenOut_of_alloc {t : Tid} {size highest : UInt64} {node : Option UInt32} {e : Choice}
    {p : IoPtr} {w w' : World}
    (he : w.exec t (.allocContiguous size highest node) e = some (p, w')) :
    GivenOut p size w'.bufferView := by
  intro v hv
  obtain ⟨w₁, hs, rfl⟩ := World.exec_step he
  subst hv
  cases e with
  | region va phys =>
    simp only [World.step, Option.ite_none_right_eq_some, Option.some.injEq, Prod.mk.injEq] at hs
    obtain ⟨-, rfl, rfl⟩ := hs
    exact ⟨phys, by simp [World.bufferView, World.record]⟩
  | fail s => cases hs
  | _ => cases hs

/-- The first tier the allocator can satisfy, or none. -/
theorem allocateTiers_sysmem (node : Option UInt32) (sizes : List UInt64) (i : Nat)
    (hsizes : ∀ size ∈ sizes, size ∈ sysmemTiers) :
    sysmem.Triple (driverMachine.observe iatuLog) .hardware (Stands st Bare) (allocateTiers node i sizes)
      fun _ => Stands st fun b a => ∃ p, Found p b a := by
  induction sizes generalizing i with
  | nil =>
    refine Triple.pure stable_stands fun x hx => ⟨hx.started, none, hx.state.dark, hx.state.va, ?_, nofun⟩
    exact fun h => absurd rfl h
  | cons size sizes ih =>
    have htier : size ∈ sysmemTiers := hsizes size List.mem_cons_self
    refine stands_vis (Ψ := fun p b a => Bare b a ∧ GivenOut p size b) ?_ fun p => ?_
    · intro x e p y _ hbare he
      obtain ⟨hexec, -, hnote⟩ := watched_exec he
      have hctx : y.1.ctx = x.1.ctx := (World.exec_frame hexec).ctx
      have hseen : y.2 = x.2 := hnote
      have harm : armView y = armView x := by rw [armView, armView, hctx, hseen]
      have hva : y.1.bufferView.va = x.1.bufferView.va := congrArg DeviceContext.sysmemVa hctx
      exact ⟨⟨⟨harm ▸ hbare.dark, hva.trans hbare.va⟩, givenOut_of_alloc hexec⟩,
        dark_vouched (harm ▸ hbare.dark)⟩
    refine stands_record (Ψ := fun b a => a.verified = false ∧ b.va = p ∧ GivenOut p size b)
      (fun c live g h => ⟨h.1.dark, h.1.dark, rfl, h.2⟩) ?_
    refine Triple.ite (fun hp => ?_) fun hp => ?_
    · refine stands_record (Ψ := fun b a => ∃ p, Found p b a)
        (fun c live g h => ⟨h.1, p, h.1, h.2.1, fun _ => htier, h.2.2⟩) ?_
      exact Triple.pure stable_stands fun _ h => h
    · have hnone : p = none := not_not.mp hp
      refine stands_record (Ψ := Bare) (fun c live g h => ⟨h.1, h.1, h.2.1.trans hnone⟩) ?_
      exact ih (i + 1) fun size hs => hsizes size (List.mem_cons_of_mem _ hs)

/-- PrepareHardware ends with a live buffer or none. -/
theorem sysmemAllocate_sysmem :
    sysmem.Triple (driverMachine.observe iatuLog) .hardware (Stands st Bare) sysmemAllocate
      fun _ => Stands st fun b a => a.verified = false ∧ (b.va = none ∨ b.Allocated) := by
  refine stands_vis (Ψ := fun _ => Bare) (fun x e a y hvouched hstate he => ?_) fun node => ?_
  · have hspares := fun ho => exec_spares ho he
    obtain ⟨hbuffer, harm⟩ := hspares trivial
    rw [hbuffer, harm]
    exact ⟨hstate, hvouched⟩
  refine Triple.bind (p := allocateTiers node 0 sysmemTiers) sysmem_steady
    (allocateTiers_sysmem node _ 0 fun _ h => h) fun _ => ?_
  refine stands_vis (Ψ := fun (c : DeviceContext) b a => Found c.sysmemVa b a) ?_ fun c => ?_
  · intro x e c y hvouched hstate he
    have hspares := fun ho => exec_spares ho he
    obtain ⟨hbuffer, harm⟩ := hspares trivial
    obtain ⟨w₁, hs, -⟩ := World.exec_step (watched_exec he).1
    obtain ⟨rfl, -⟩ := Prod.mk.inj (Option.some.inj hs)
    obtain ⟨p, hfound⟩ := hstate
    have hp : x.1.ctx.sysmemVa = p := hfound.va
    rw [hbuffer, harm, hp]
    exact ⟨hfound, hvouched⟩
  refine Triple.ite (fun hnone => ?_) fun hsome => ?_
  · refine stands_record (Ψ := fun b a => a.verified = false ∧ (b.va = none ∨ b.Allocated))
      (fun d live g h => ⟨h.dark, h.dark, .inl (h.va.trans hnone)⟩) ?_
    exact Triple.pure stable_stands fun _ h => h
  · refine stands_vis (Ψ := fun (phys : UInt64) b a => Found (DeviceContext.sysmemVa c) b a ∧
      ∃ v, b.va = some v ∧ ⟨v, phys, b.size⟩ ∈ b.live) ?_ fun phys => ?_
    · intro x e phys y hvouched hfound he
      have hspares := fun ho => exec_spares ho he
      obtain ⟨hbuffer, harm⟩ := hspares trivial
      rw [hbuffer, harm]
      refine ⟨⟨hfound, ?_⟩, hvouched⟩
      obtain ⟨v, hv⟩ := Option.ne_none_iff_exists'.mp hsome
      obtain ⟨phys', hfind⟩ := hfound.live v hv
      obtain ⟨w₁, hs, -⟩ := World.exec_step (watched_exec he).1
      obtain ⟨hphys, -⟩ := Prod.mk.inj (Option.some.inj hs)
      have hfind : x.1.contiguous.find? (fun m => some m.va == c.sysmemVa) =
        some ⟨v, phys', x.1.ctx.sysmemSize⟩ := hfind
      rw [hfind] at hphys
      subst hphys
      exact ⟨v, hfound.va.trans hv, List.mem_of_find?_eq_some hfind⟩
    · refine stands_record (Ψ := fun b a => a.verified = false ∧ (b.va = none ∨ b.Allocated))
        (fun d live g h => ⟨h.1.dark, h.1.dark, .inr ⟨h.1.tier hsome, h.2⟩⟩) ?_
      exact spares_keeps ⟨trivial, fun _ _ => trivial⟩

theorem evtDevicePrepareHardware_sysmem (resources : List ResourceDesc) :
    sysmem.Triple (driverMachine.observe iatuLog) .hardware (Stands st Bare)
      (evtDevicePrepareHardware resources)
      fun _ => Stands st fun b a => a.verified = false ∧ (b.va = none ∨ b.Allocated) := by
  have hdone : ∀ s : NtStatus, sysmem.Triple (driverMachine.observe iatuLog) .hardware (Stands st Bare)
      (Pure.pure s : Drv NtStatus)
      fun _ => Stands st fun b a => a.verified = false ∧ (b.va = none ∨ b.Allocated) :=
    fun s => Triple.pure stable_stands fun _ h => ⟨h.started, h.state.dark, .inl h.state.va⟩
  have hvis : ∀ {o : Op} {k : o.Ans → Drv NtStatus} {Q : NtStatus → World × IatuRegs → Prop}, bareFoot o →
      (∀ a, sysmem.Triple (driverMachine.observe iatuLog) .hardware (Stands st Bare) (k a) Q) →
      sysmem.Triple (driverMachine.observe iatuLog) .hardware (Stands st Bare) (op o >>= k) Q :=
    fun ho hk => Triple.bind sysmem_steady (bare_keeps ((within_perform _).mpr ho)) hk
  have hmap : ∀ {covered : Bool} {phys : UInt64} {len : Nat} {set : IoPtr → DeviceContext → DeviceContext},
      (∀ p, HardwareFrame (set p) ∧ ∀ c, (set p c).sysmemVa = c.sysmemVa) →
      (mapOptional covered phys len set).Only bareFoot := fun hset =>
    Within.ite (fun _ => ⟨trivial, fun p _ => (within_perform _).mpr (hset p)⟩) fun _ => trivial
  refine Triple.bind (p := readPciIdentity) sysmem_steady
    (bare_keeps (readPciIdentity_only identityScope_bare)) fun _ => Triple.ite (fun _ => hdone _) fun _ => ?_
  refine hvis ⟨fun _ => ⟨rfl, id⟩, fun _ => rfl⟩ fun _ => ?_
  refine Triple.bind (p := recordBars resources) sysmem_steady
    (bare_keeps (recordBars_only identityScope_bare resources)) fun _ => ?_
  refine hvis trivial fun c => Triple.ite (fun _ => hdone _) fun _ => hvis trivial fun p => ?_
  refine hvis ⟨fun _ => ⟨rfl, id⟩, fun _ => rfl⟩ fun _ => Triple.ite (fun _ => hdone _) fun _ => ?_
  refine hvis trivial fun q => hvis ⟨fun _ => ⟨rfl, id⟩, fun _ => rfl⟩ fun _ => ?_
  refine Triple.ite (fun _ => hvis trivial fun _ => hvis ⟨fun _ => ⟨rfl, id⟩, fun _ => rfl⟩ fun _ => hdone _)
    fun _ => ?_
  refine Triple.bind (p := mapOptional _ _ _ _) sysmem_steady
    (bare_keeps (hmap fun _ => ⟨fun _ => ⟨rfl, id⟩, fun _ => rfl⟩)) fun _ => ?_
  refine Triple.bind (p := mapOptional _ _ _ _) sysmem_steady
    (bare_keeps (hmap fun _ => ⟨fun _ => ⟨rfl, id⟩, fun _ => rfl⟩)) fun _ => ?_
  refine Triple.bind (p := mapOptional _ _ _ _) sysmem_steady
    (bare_keeps (hmap fun _ => ⟨fun _ => ⟨rfl, id⟩, fun _ => rfl⟩)) fun _ => ?_
  exact Triple.bind (p := sysmemAllocate) sysmem_steady sysmemAllocate_sysmem fun _ =>
    Triple.pure stable_stands fun _ h => h

/-- Freeing the buffer leaves none. -/
theorem sysmemFree_sysmem :
    sysmem.Triple (driverMachine.observe iatuLog) .hardware (Stands st Dark) sysmemFree
      fun _ => Stands st Bare := by
  refine Triple.bind (p := freeBuffer) (Q := fun _ => Stands st Bare) sysmem_steady ?_ fun _ => ?_
  · refine stands_vis (Ψ := fun (c : DeviceContext) b a => Dark b a ∧ b.va = c.sysmemVa) ?_ fun c => ?_
    · intro x e c y hvouched hdark he
      have hspares := fun ho => exec_spares ho he
      obtain ⟨hbuffer, harm⟩ := hspares trivial
      obtain ⟨w₁, hs, -⟩ := World.exec_step (watched_exec he).1
      obtain ⟨rfl, -⟩ := Prod.mk.inj (Option.some.inj hs)
      rw [hbuffer, harm]
      exact ⟨⟨hdark, rfl⟩, hvouched⟩
    refine Triple.ite (fun _ => ?_) fun hnone => ?_
    · refine stands_vis (Ψ := fun _ => Dark) ?_ fun _ => ?_
      · intro x e _ y _ hdark he
        obtain ⟨hexec, -, hnote⟩ := watched_exec he
        have hctx : y.1.ctx = x.1.ctx := (World.exec_frame hexec).ctx
        have hseen : y.2 = x.2 := hnote
        have harm : armView y = armView x := by rw [armView, armView, hctx, hseen]
        rw [harm]
        exact ⟨hdark.1, dark_vouched hdark.1⟩
      · refine stands_record (Ψ := Bare) (fun c live g h => ⟨h, h, rfl⟩) ?_
        exact Triple.pure stable_stands fun _ h => h
    · refine Triple.pure stable_stands fun x hx => ⟨hx.started, hx.state.1, hx.state.2.trans ?_⟩
      exact not_not.mp hnone
  · exact bare_keeps ((within_perform _).mpr ⟨fun _ => ⟨rfl, nofun⟩, fun _ => rfl⟩)

theorem evtDeviceReleaseHardware_sysmem :
    sysmem.Triple (driverMachine.observe iatuLog) .hardware (Stands st fun _ _ => True)
      evtDeviceReleaseHardware fun _ => Stands st Bare := by
  have hclear : ∀ {get : DeviceContext → IoPtr} {clear : DeviceContext → DeviceContext} {len : Nat},
      sparesFoot (.store clear) → (releasePtr get clear len).Only sparesFoot :=
    fun hc => releasePtr_only trivial (fun _ _ => trivial) _ hc _
  have hrevoke : revokeAllMappings.Only sparesFoot :=
    ⟨trivial, fun _ _ => destroyAll_only ⟨trivial, fun _ => trivial, fun _ => trivial, fun _ => trivial,
      fun _ => trivial, fun _ _ => trivial, fun _ => trivial, fun _ => trivial, fun _ => trivial⟩ _⟩
  have hspares : ∀ {β : Type} {p : Drv β} {Φ : BufferView → ArmView → Prop}, p.Only sparesFoot →
      sysmem.Keeps (driverMachine.observe iatuLog) .hardware (Stands st Φ) p := fun hp => spares_keeps hp
  refine Triple.bind (p := revokeAllMappings) sysmem_steady (hspares hrevoke) fun _ => ?_
  refine Triple.bind (p := acquire .arc) sysmem_steady (hspares ((within_perform _).mpr trivial)) fun _ => ?_
  refine Triple.bind (p := releasePtr _ _ _) sysmem_steady
    (hspares (hclear fun _ => ⟨⟨rfl, rfl, rfl⟩, fun _ => rfl⟩)) fun _ => ?_
  refine Triple.bind (p := releasePtr _ _ _) sysmem_steady
    (hspares (hclear fun _ => ⟨⟨rfl, rfl, rfl⟩, fun _ => rfl⟩)) fun _ => ?_
  refine Triple.bind (p := releasePtr _ _ _) sysmem_steady
    (hspares (hclear fun _ => ⟨⟨rfl, rfl, rfl⟩, fun _ => rfl⟩)) fun _ => ?_
  refine Triple.bind (p := releasePtr _ _ _) sysmem_steady
    (hspares (hclear fun _ => ⟨⟨rfl, rfl, rfl⟩, fun _ => rfl⟩)) fun _ => ?_
  refine stands_record (Ψ := Dark) (fun c live g _ => ⟨rfl, rfl⟩) ?_
  refine Triple.bind (p := release .arc) sysmem_steady (hspares ((within_perform _).mpr trivial)) fun _ => ?_
  refine Triple.bind (p := sysmemFree) sysmem_steady sysmemFree_sysmem fun _ => bare_keeps ?_
  refine Within.perform_bind trivial fun _ _ => ?_
  refine Within.bind (releasePtr_only trivial (fun _ _ => trivial) _ ⟨fun _ => ⟨rfl, id⟩, fun _ => rfl⟩ _)
    fun _ => Within.perform_bind trivial fun _ _ => ?_
  refine (releaseBusInterface_only identityScope_bare).bind fun _ => ?_
  exact (within_perform _).mpr ⟨fun _ => ⟨rfl, id⟩, fun _ => rfl⟩

end Hardware

/-! ## The whole system -/

/-- What a bystander leaves: it works on no device and stores nothing. -/
def bystandFoot : Op → Prop
  | .store _ | .mmioWrite _ _ _ | .allocContiguous _ _ _ | .freeContiguous _ _ => False
  | _ => True

theorem bystand_keeps {t : Tid} (ht : t ≠ .hardware) {α : Type} {p : Drv α} (hp : p.Only bystandFoot) :
    sysmem.Keeps (driverMachine.observe iatuLog) t (fun _ => True) p := by
  refine modest_keeps ht (Stable.true t) (fun o ho => ?_) (fun _ _ _ _ _ _ _ _ _ _ => trivial) hp
  cases o <;> first
    | exact (ho : False).elim
    | exact ⟨⟨id, nofun⟩, modest_of_not_store nofun⟩

theorem begins_sysmem {L : Tid → Prop} {t : Tid} {p : Drv Unit} {x y : World × IatuRegs}
    (h : Begins L t p x.1 y.1) (hnl : ¬ L t) (hseen : y.2 = x.2) (hinv : SysmemInv L x) :
    sysmem.Safe (driverMachine.observe iatuLog) t p (fun _ => sysmem.post t) y := by
  have hdone : ∀ {u : Tid} {q : Drv Unit}, u ≠ .hardware →
      sysmem.Keeps (driverMachine.observe iatuLog) u (fun _ => True) q →
      sysmem.Safe (driverMachine.observe iatuLog) u q (fun _ => sysmem.post u) y :=
    fun hu hq => Protocol.Safe.mono (hq y trivial) fun _ _ _ ht => absurd ht hu
  have harm : armView y = armView x := by rw [armView, armView, begins_ctx h, hseen]
  have hbuffer : y.1.bufferView = x.1.bufferView := by
    rw [World.bufferView, World.bufferView, begins_ctx h]
    generalize y.1 = w' at h
    cases h <;> rfl
  generalize hw' : y.1 = w' at h
  cases h with
  | ioctl r code p =>
    exact hdone nofun ((requestRegions_sysmem r.fileObject).evtIoDeviceControl code)
  | power cb p =>
    have hworks : Tid.power.Works := .inr rfl
    exact hdone nofun (((footRegions_sysmem hworks).arcRegions (armLocked_sysmem hworks)).powerCallback cb)
  | prepare resources p hp hi hstopped =>
    obtain ⟨hdark, hva⟩ := hinv.gone hnl hstopped
    have hstands : Stands true Bare y := by
      rw [← harm] at hdark
      rw [← hbuffer] at hva
      exact ⟨by rw [hw'], hdark, hva⟩
    have hprepare : sysmem.Triple (driverMachine.observe iatuLog) .hardware (Stands true Bare)
        (do let _ ← evtDevicePrepareHardware resources)
        fun _ => Stands true fun b a => a.verified = false ∧ (b.va = none ∨ b.Allocated) :=
      Triple.bind (p := evtDevicePrepareHardware resources) sysmem_steady
        (evtDevicePrepareHardware_sysmem resources) fun _ => Triple.pure stable_stands fun _ h => h
    refine Protocol.Safe.mono (hprepare y hstands) fun _ z hz _ => ⟨hz.state.2, fun hst => ?_⟩
    rw [hz.started] at hst
    cases hst
  | release p =>
    have hstands : ∃ st, Stands st (fun _ _ => True) y := ⟨_, rfl, trivial⟩
    obtain ⟨st, hstands⟩ := hstands
    refine Protocol.Safe.mono (evtDeviceReleaseHardware_sysmem y hstands) fun _ z hz _ => ?_
    exact ⟨.inl hz.state.va, fun _ => ⟨hz.state.dark, hz.state.va⟩⟩
  | create fo p =>
    refine hdone (u := .create fo) nofun (bystand_keeps (t := .create fo) nofun ((evtDeviceFileCreate_only fo).mono fun o ho => ?_))
    cases o <;> first | exact (ho : False).elim | trivial
  | cleanup fo p =>
    refine hdone (u := .cleanup fo) nofun (bystand_keeps (t := .cleanup fo) nofun ((evtFileCleanup_only fo).mono fun o ho => ?_))
    cases o <;> first | exact (ho : False).elim | trivial

/-- Calls begin and end, and the environment moves, without a trace in the buffer or the arm. -/
theorem Kept.of_same {u : Tid} {x y : World × IatuRegs} (hctx : y.1.ctx = x.1.ctx)
    (hlive : y.1.contiguous = x.1.contiguous) (hstarted : y.1.started = x.1.started)
    (hlock : y.1.arcLock = x.1.arcLock) (hseen : y.2 = x.2) : Kept u x y := by
  refine ⟨?_, by rw [hctx], hstarted, fun h => hlock.trans h, fun _ => ?_⟩
  · rw [World.bufferView, World.bufferView, hctx, hlive]
  · rw [armView, armView, hctx, hseen]

theorem SysmemInv.congr {L L' : Tid → Prop} {x y : World × IatuRegs} (h : SysmemInv L x)
    (hctx : y.1.ctx = x.1.ctx) (hlive : y.1.contiguous = x.1.contiguous) (hseen : y.2 = x.2)
    (hloaded : L' .ioctl → L .ioctl ∧ y.1.hist .ioctl = x.1.hist .ioctl ∨ y.1.hist .ioctl = [])
    (hsettled : ¬ L' .hardware → x.1.bufferView.va = none ∨ x.1.bufferView.Allocated)
    (hgone : ¬ L' .hardware → y.1.started = false →
      (armView x).verified = false ∧ x.1.bufferView.va = none) : SysmemInv L' y := by
  have hbuffer : y.1.bufferView = x.1.bufferView := by
    rw [World.bufferView, World.bufferView, hctx, hlive]
  have harm : armView y = armView x := by rw [armView, armView, hctx, hseen]
  refine ⟨?_, fun hl c hc => ?_, ?_, ?_⟩
  · rw [hbuffer, harm]
    exact h.vouched
  · rw [hbuffer]
    rcases hloaded hl with ⟨hbefore, hhist⟩ | hempty
    · exact h.loaded hbefore c (hhist ▸ hc)
    · rw [hempty] at hc
      cases hc
  · rw [hbuffer]
    exact hsettled
  · rw [hbuffer, harm]
    exact hgone

theorem sysmem_sound : sysmem.Sound (driver.observe iatuLog) where
  toSteady := sysmem_steady
  initial x hx := by
    obtain ⟨⟨buffer, hw⟩, -⟩ := hx
    have hdark : (armView x).verified = false := by rw [armView, hw]; rfl
    have hva : x.1.bufferView.va = none := by rw [hw]; rfl
    exact ⟨dark_vouched hdark, fun h => h.elim, fun _ => .inl hva, fun _ _ => ⟨hdark, hva⟩⟩
  compat L t t' x y hl hl' hne _ hknown hg hd := by
    refine hg t' (Ne.symm hne) hd ?_
    rintro (⟨rfl, -⟩ | ⟨rfl, hdt⟩)
    · have halone := hknown.alone hl
      cases t' with
      | ioctl => exact halone.1 hl'
      | power => exact halone.2 hl'
      | hardware => exact hne rfl
      | _ => exact hd
    · have halone := hknown.alone hl'
      cases t with
      | ioctl => exact halone.1 hl
      | power => exact halone.2 hl
      | hardware => exact hne rfl
      | _ => exact hdt
  begins L t p x y hb hnl hinv _ := by
    obtain ⟨hb, hseen⟩ := hb
    have hsame : y.1.contiguous = x.1.contiguous ∧ y.1.arcLock = x.1.arcLock := by
      generalize y.1 = w' at hb
      cases hb <;> exact ⟨rfl, rfl⟩
    have hstarted : t ≠ .hardware → y.1.started = x.1.started := by
      intro ht
      generalize y.1 = w' at hb
      cases hb <;> first | rfl | exact absurd rfl ht
    refine ⟨hinv.congr (begins_ctx hb) hsame.1 hseen (fun hi => ?_)
      (fun hn => hinv.settled fun hh => hn (.inr hh)) (fun hn hst => ?_), fun t' ht' hd => ?_,
      begins_sysmem hb hnl hseen hinv⟩
    · by_cases ht : t = .ioctl
      · subst ht
        exact .inr (begins_hist_self hb)
      · exact .inl ⟨hi.resolve_left fun h => ht h.symm, begins_hist hb (Ne.symm ht)⟩
    · have ht : t ≠ .hardware := fun h => hn (.inl h.symm)
      exact hinv.gone (fun hh => hn (.inr hh)) ((hstarted ht).symm.trans hst)
    · exact Kept.of_same (begins_ctx hb) hsame.1 (begins_undisturbed hb hnl ht' hd).started hsame.2 hseen
  ends L t x y he hl hinv _ hpost := by
    obtain ⟨he, hseen⟩ := he
    have hleave : y.1 = x.1.leave t := he
    have hsame : y.1.ctx = x.1.ctx ∧ y.1.contiguous = x.1.contiguous ∧ y.1.started = x.1.started ∧
        y.1.arcLock = x.1.arcLock ∧ y.1.hist = x.1.hist := by
      rw [hleave]
      cases t <;> exact ⟨rfl, rfl, rfl, rfl, rfl⟩
    obtain ⟨hctx, hlive, hstarted, hlock, hhist⟩ := hsame
    refine ⟨hinv.congr hctx hlive hseen (fun hi => .inl ⟨hi.2, by rw [hhist]⟩) (fun hn => ?_) fun hn hst => ?_,
      fun t' _ _ => Kept.of_same hctx hlive hstarted hlock hseen⟩
    · by_cases ht : t = .hardware
      · exact (hpost ht).1
      · exact hinv.settled fun hh => hn ⟨fun h => ht h.symm, hh⟩
    · rw [hstarted] at hst
      by_cases ht : t = .hardware
      · exact (hpost ht).2 hst
      · exact hinv.gone (fun hh => hn ⟨fun h => ht h.symm, hh⟩) hst
  env L x y he hinv _ := by
    have hsame : y.1.ctx = x.1.ctx ∧ y.1.contiguous = x.1.contiguous ∧ y.1.started = x.1.started ∧
        y.1.arcLock = x.1.arcLock ∧ y.1.hist = x.1.hist ∧ y.2 = x.2 := by
      rcases he with ⟨he, hseen⟩ | ⟨-, n, hdrift⟩
      · refine ⟨environment_ctx he, ?_, ?_, ?_, ?_, hseen⟩ <;> generalize y.1 = w' at he <;> cases he <;> rfl
      · cases hdrift
    obtain ⟨hctx, hlive, hstarted, hlock, hhist, hseen⟩ := hsame
    refine ⟨hinv.congr hctx hlive hseen (fun hi => .inl ⟨hi, by rw [hhist]⟩) hinv.settled fun hn hst => hinv.gone hn (hstarted.symm.trans hst),
      fun t' _ _ => Kept.of_same hctx hlive hstarted hlock hseen⟩

/-- Every run of the watched driver is disciplined and placed. -/
theorem reach_sysmem {c : WatchedConfig IatuRegs} (h : Reach (driver.observe iatuLog) anyStep c) :
    SysmemInv c.live c.world := by
  have hreach : Reach (driver.observe iatuLog) sysmem.allow c :=
    h.restrict fun _ _ _ _ hc hp _ => mmio_sound.about (reach_unwatched hc) hp trivial
  exact (sysmem_sound.good hreach fun _ hc => reach_mmioInv (reach_unwatched hc)).inv

end TtWind
