import TtWind.Laws.DevicePath
import TtWind.Laws.Guarded
import TtWind.Laws.Packing

/-!
# The kernel window is where the driver aimed it

The driver aims the one kernel window anew for each access, in four ioctls and the power
callbacks. Only the holder of ArcLock writes its registers, so they read as that thread's own
call has left them since it took the lock; what the call has done is in its history, and the
last it did before an access was to aim the window.
-/

set_option autoImplicit false

namespace TtWind

open TtWind.Effect TtWind.Effect.Prog TtWind.Effect.Protocol

/-! ## What a call has done since it took ArcLock -/

/-- The events since the latest that took or gave up ArcLock. -/
def recent : List Event → List Event
  | [] => []
  | ⟨.acquire .arc, _⟩ :: _ => []
  | ⟨.release .arc, _⟩ :: _ => []
  | ev :: evs => ev :: recent evs

theorem recent_of_moves {o : Op} {a : o.Ans} {evs : List Event} (h : o.movesLock .arc) :
    recent (⟨o, a⟩ :: evs) = [] := by
  cases o with
  | acquire l =>
    obtain rfl : l = .arc := h
    rfl
  | release l =>
    obtain rfl : l = .arc := h
    rfl
  | _ => exact h.elim

theorem recent_cons {o : Op} {a : o.Ans} {evs : List Event} (h : ¬ o.movesLock .arc) :
    recent (⟨o, a⟩ :: evs) = ⟨o, a⟩ :: recent evs := by
  cases o with
  | acquire l => cases l <;> first | rfl | exact absurd rfl h
  | release l => cases l <;> first | rfl | exact absurd rfl h
  | _ => rfl

/-- The bytes of the register block, as the writes listed leave them. -/
def rewrites (p : IoPtr) (regs : Nat → UInt8) : List Event → Nat → UInt8
  | [] => regs
  | ⟨.mmioWrite q off v, _⟩ :: evs =>
    if q = p then leStore (rewrites p regs evs) off 4 v.toNat else rewrites p regs evs
  | _ :: evs => rewrites p regs evs

/-- The contexts loaded since the latest store. -/
def loadedSince : List Event → List DeviceContext
  | [] => []
  | ⟨.load, c⟩ :: evs => c :: loadedSince evs
  | ⟨.store _, _⟩ :: _ => []
  | _ :: evs => loadedSince evs

/-- A byte of the three registers of the kernel window. -/
def KernelByte (b : Nat) : Prop := kernelTlbIndex * tlbRegSize ≤ b ∧ b < (kernelTlbIndex + 1) * tlbRegSize

/-- The call has written the kernel window's registers. -/
def Steered (p : IoPtr) (evs : List Event) : Prop :=
  ∃ off v, WindowReg kernelTlbIndex off ∧ (⟨.mmioWrite p off v, ()⟩ : Event) ∈ evs

/-- What the latest events of the thread that holds ArcLock say is so: the kernel window's registers
hold what it has written, and the tile is the one it has loaded. -/
structure OnTarget (t : Tid) (x : World × Windows) : Prop where
  regs : ∃ before, ∀ b, KernelByte b →
    x.2.regs b = rewrites x.1.ctx.tlbRegs before (recent (x.1.hist t)) b
  tile : ∀ c ∈ loadedSince (recent (x.1.hist t)), c.pcieTileX = x.1.ctx.pcieTileX

/-- What holds of the threads at work. -/
structure AimInv (L : Tid → Prop) (x : World × Windows) : Prop where
  tile : TileKnown x.1.ctx.pcieTileX
  card : ∀ t, t.Works → L t → ∀ c, (⟨.load, c⟩ : Event) ∈ x.1.hist t → c.card = x.1.ctx.card
  held : ∀ t, t.Works → L t → Steered x.1.ctx.tlbRegs (recent (x.1.hist t)) → x.1.arcLock = some t
  aimed : ∀ t, t.Works → L t → x.1.arcLock = some t → OnTarget t x

/-- The operation leaves the tile known. -/
def Op.KeepsTile (o : Op) : Prop := ∀ f, o = .store f → ∀ c, TileKnown c.pcieTileX → TileKnown (f c).pcieTileX

/-- The argument asks of a program only that it keeps the tile; the rest holds of every run. -/
def aiming : Protocol DriverSig Tid (World × Windows) where
  allow t o x := steering.allow t o x ∧ steering.pre t o x
  inv := AimInv
  known L x := MmioInv L x.1 ∧ x.1.ctx.AllocatorInv
  rely _ _ _ := True
  guar _ _ _ := True
  pre _ o _ := o.KeepsTile

/-! ## One step -/

section Step

variable {t : Tid} {o : Op} {e : Choice} {x y : World × Windows} {a : o.Ans} {L : Tid → Prop}

/-- What an operation leaves to a thread at work. -/
theorem aim_frame {u : Tid} (hu : u.Works) (hl : L t) (hlu : L u) (hknown : MmioInv L x.1)
    (ha : steering.allow t o x) (he : (driverMachine.observe windowLog).exec t o e x = some (a, y)) :
    y.1.ctx.card = x.1.ctx.card ∧ (¬ (t.Works ∧ x.1.arcLock = some t) →
      y.1.ctx.pcieTileX = x.1.ctx.pcieTileX) := by
  have hhw : t ≠ .hardware := by
    rintro rfl
    have halone := hknown.alone hl
    rcases hu with rfl | rfl
    · exact halone.1 hlu
    · exact halone.2 hlu
  rw [(World.exec_frame (watched_exec he).1).ctx]
  cases o with
  | store f =>
    refine ⟨(ha.2.same hhw).1, fun hn => ?_⟩
    rcases ha.2 with ⟨hworks, hlock, -⟩ | ⟨hw, -⟩
    · exact absurd ⟨hworks, hlock⟩ hn
    · exact absurd hw hhw
  | locked s =>
    rw [Op.effect, Section.run_frame x.1.ctx s]
    exact ⟨rfl, fun _ => rfl⟩
  | _ => exact ⟨rfl, fun _ => rfl⟩

/-- A register of a user window is apart from the kernel window's. -/
theorem kernelByte_apart {i off b : Nat} (hi : i < kernelTlbIndex) (hoff : WindowReg i off) (hb : KernelByte b) :
    ¬ (off ≤ b ∧ b < off + 4) := by
  simp only [WindowReg, KernelByte, tlbRegSize, tlbStridedRegSize, tlbStridedRegsOffset, tlbStridedCount,
    tlb2mCount, tlb4gCount, kernelTlbIndex] at *
  omega

/-- A request configures a user window. -/
theorem Steers.user {off : Nat} (h : Steers x off) (hinv : x.1.ctx.AllocatorInv) :
    ∃ i < kernelTlbIndex, WindowReg i off := by
  obtain ⟨fo, -, howner, hoff, -⟩ := h
  refine ⟨_, hinv.user_of_owned (i := x.1.req.tlbId) ?_, hoff⟩
  rw [howner]
  exact Option.some_ne_none _

/-- Who does not hold ArcLock leaves the kernel window's registers. -/
theorem kernel_kept (hlock : x.1.arcLock ≠ some t) (hinv : x.1.ctx.AllocatorInv) (hpre : steering.pre t o x)
    (he : (driverMachine.observe windowLog).exec t o e x = some (a, y)) {b : Nat} (hb : KernelByte b) :
    y.2.regs b = x.2.regs b := by
  obtain ⟨-, -, hnote⟩ := watched_exec he
  cases o with
  | mmioWrite p off v =>
    by_cases hp : p = x.1.ctx.tlbRegs
    · simp only [windowLog, if_pos hp] at hnote
      rw [hnote]
      rcases hpre hp with ⟨-, hheld⟩ | ⟨-, hsteers⟩
      · exact absurd hheld hlock
      · obtain ⟨i, hi, hoff⟩ := hsteers.user hinv
        exact leStore_of_not_mem (kernelByte_apart hi hoff hb)
    · simp only [windowLog, if_neg hp] at hnote
      rw [hnote]
  | _ => exact congrArg (fun s : Windows => s.regs b) hnote

/-- The holder of ArcLock goes on. -/
theorem OnTarget.step (hx : OnTarget t x) (hcard : y.1.ctx.card = x.1.ctx.card) (hmoves : ¬ o.movesLock .arc)
    (he : (driverMachine.observe windowLog).exec t o e x = some (a, y)) : OnTarget t y := by
  obtain ⟨hexec, -, hnote⟩ := watched_exec he
  have hf := World.exec_frame hexec
  have hptr : y.1.ctx.tlbRegs = x.1.ctx.tlbRegs := congrFun (congrArg Card.ptr hcard) .tlbRegs
  have hrecent : recent (y.1.hist t) = ⟨o, a⟩ :: recent (x.1.hist t) := by
    rw [hf.hist, Function.update_self]
    exact recent_cons hmoves
  obtain ⟨before, hregs⟩ := hx.regs
  refine ⟨⟨before, fun b hb => ?_⟩, fun c hc => ?_⟩
  · rw [hrecent, hptr]
    cases o with
    | mmioWrite p off v =>
      by_cases hp : p = x.1.ctx.tlbRegs
      · simp only [windowLog, if_pos hp] at hnote
        rw [hnote, rewrites, if_pos hp]
        simp only [leStore]
        rw [hregs b hb]
      · simp only [windowLog, if_neg hp] at hnote
        rw [hnote, rewrites, if_neg hp]
        exact hregs b hb
    | _ =>
      rw [show y.2 = x.2 from hnote]
      exact hregs b hb
  · rw [hrecent] at hc
    have hkeep : c ∈ loadedSince (recent (x.1.hist t)) → (∀ f, o ≠ .store f) →
        c.pcieTileX = y.1.ctx.pcieTileX := by
      intro hc hstore
      rw [hx.tile c hc, hf.ctx]
      cases o with
      | store f => exact absurd rfl (hstore f)
      | locked s =>
        rw [Op.effect, Section.run_frame x.1.ctx s]
      | _ => rfl
    cases o with
    | store f => cases hc
    | load =>
      rcases List.mem_cons.mp hc with rfl | hc
      · obtain ⟨w₁, hs, -⟩ := World.exec_step hexec
        obtain ⟨rfl, -⟩ := Prod.mk.inj (Option.some.inj hs)
        rw [hf.ctx]
        rfl
      · exact hkeep hc fun f hf => by cases hf
    | _ => exact hkeep hc fun f hf => by cases hf

/-- A step of the driver keeps the invariant, if it keeps the tile. -/
theorem aim_step (ho : o.KeepsTile) (hl : L t) (hknown : aiming.known L x) (hinv : AimInv L x)
    (ha : aiming.allow t o x) (he : (driverMachine.observe windowLog).exec t o e x = some (a, y)) :
    AimInv L y := by
  obtain ⟨hexec, -, -⟩ := watched_exec he
  have hf := World.exec_frame hexec
  have hself : y.1.hist t = ⟨o, a⟩ :: x.1.hist t := by
    rw [hf.hist, Function.update_self]
    rfl
  have hother : ∀ u, u ≠ t → y.1.hist u = x.1.hist u := by
    intro u hu
    rw [hf.hist, Function.update_of_ne hu]
  have hframe : ∀ u, u.Works → L u → y.1.ctx.card = x.1.ctx.card ∧
      (¬ (t.Works ∧ x.1.arcLock = some t) → y.1.ctx.pcieTileX = x.1.ctx.pcieTileX) :=
    fun u hu hlu => aim_frame hu hl hlu hknown.1 ha.1 he
  have hptr : ∀ u, u.Works → L u → y.1.ctx.tlbRegs = x.1.ctx.tlbRegs :=
    fun u hu hlu => congrFun (congrArg Card.ptr (hframe u hu hlu).1) .tlbRegs
  refine ⟨?_, fun u hu hlu c hc => ?_, fun u hu hlu hsteered => ?_, fun u hu hlu hlock => ?_⟩
  · rw [hf.ctx]
    cases o with
    | store f => exact ho f rfl _ hinv.tile
    | locked s =>
      rw [Op.effect, Section.run_frame x.1.ctx s]
      exact hinv.tile
    | _ => exact hinv.tile
  · rw [(hframe u hu hlu).1]
    by_cases hut : u = t
    · subst hut
      rw [hself] at hc
      rcases List.mem_cons.mp hc with hev | hc
      · obtain ⟨rfl, hans⟩ := Sigma.mk.inj hev
        obtain ⟨w₁, hs, -⟩ := World.exec_step hexec
        obtain ⟨hloaded, -⟩ := Prod.mk.inj (Option.some.inj hs)
        rw [eq_of_heq hans, ← hloaded]
      · exact hinv.card u hu hlu c hc
    · rw [hother u hut] at hc
      exact hinv.card u hu hlu c hc
  · rw [hptr u hu hlu] at hsteered
    by_cases hut : u = t
    · subst hut
      rw [hself] at hsteered
      by_cases hmoves : o.movesLock .arc
      · obtain ⟨off, v, -, hev⟩ := hsteered
        rw [recent_of_moves hmoves] at hev
        cases hev
      · rw [hf.arcLock hmoves]
        obtain ⟨off, v, hoff, hev⟩ := hsteered
        rw [recent_cons hmoves] at hev
        rcases List.mem_cons.mp hev with hev | hev
        · obtain ⟨rfl, -⟩ := Sigma.mk.inj hev
          rcases ha.2 rfl with ⟨-, hheld⟩ | ⟨-, hsteers⟩
          · exact hheld
          · obtain ⟨i, hi, hoff'⟩ := hsteers.user hknown.2
            have hfirst : KernelByte off := by
              simp only [WindowReg, KernelByte, tlbRegSize, tlbStridedCount, kernelTlbIndex, tlb2mCount] at hoff ⊢
              omega
            exact absurd ⟨Nat.le_refl off, by omega⟩ (kernelByte_apart hi hoff' hfirst)
        · exact hinv.held u hu hlu ⟨off, v, hoff, hev⟩
    · rw [hother u hut] at hsteered
      exact World.exec_holder (l := .arc) hexec hut (hinv.held u hu hlu hsteered)
  · by_cases hut : u = t
    · subst hut
      by_cases hmoves : o.movesLock .arc
      · have hnone : recent (y.1.hist u) = [] := by
          rw [hself]
          exact recent_of_moves hmoves
        refine ⟨⟨y.2.regs, fun b _ => ?_⟩, fun c hc => ?_⟩
        · rw [hnone]
          rfl
        · rw [hnone] at hc
          cases hc
      · rw [hf.arcLock hmoves] at hlock
        exact (hinv.aimed u hu hlu hlock).step (hframe u hu hlu).1 hmoves he
    · have hheld : x.1.arcLock = some u := (World.exec_holder_iff (l := .arc) hexec hut).mp hlock
      have hne : x.1.arcLock ≠ some t := by
        rw [hheld]
        exact fun h => hut (Option.some.inj h)
      obtain ⟨⟨before, hregs⟩, htile⟩ := hinv.aimed u hu hlu hheld
      refine ⟨⟨before, fun b hb => ?_⟩, fun c hc => ?_⟩
      · rw [kernel_kept hne hknown.2 ha.2 he hb, hptr u hu hlu, hother u hut]
        exact hregs b hb
      · rw [hother u hut] at hc
        rw [(hframe u hu hlu).2 fun h => hne h.2]
        exact htile c hc

end Step

/-! ## Programs -/

section Programs

variable {t : Tid} {α : Type}

theorem keepsTile_of_not_store {o : Op} (h : ∀ f, o ≠ .store f) : o.KeepsTile :=
  fun f hf => absurd hf (h f)

theorem keepsTile_of_same {f : DeviceContext → DeviceContext} (h : ∀ c, (f c).pcieTileX = c.pcieTileX) :
    (Op.store f).KeepsTile := by
  intro f' hf' c hc
  obtain rfl := Op.store.inj hf'
  rw [h]
  exact hc

theorem keepsTile_of_plain {o : Op} (ho : o.plain) : o.KeepsTile := by
  refine keepsTile_of_not_store fun f hf => ?_
  subst hf
  exact ho

theorem TileFrame.keepsTile {f : DeviceContext → DeviceContext} (h : TileFrame f) : (Op.store f).KeepsTile := by
  intro f' hf' c hc
  obtain rfl := Op.store.inj hf'
  rcases h c with hsame | htile
  · rw [hsame]
    exact hc
  · exact htile

theorem aim_steady : aiming.Steady := ⟨fun _ _ => trivial, fun _ _ _ _ _ _ => trivial⟩

/-- Every program that keeps the tile. -/
theorem aim_keeps {p : Drv α} (hp : p.Only Op.KeepsTile) :
    aiming.Keeps (driverMachine.observe windowLog) t (fun _ => True) p := by
  refine Keeps.of_within_known (J := fun _ _ => True) (Stable.true t) (fun _ ho _ _ _ _ _ _ _ => ho) ?_ hp
  intro o ho x L e a y _ hl hinv hknown ha he
  exact ⟨aim_step ho hl hknown hinv ha he, trivial, trivial, trivial⟩

theorem footRegions_aim (t : Tid) : FootRegions (driverMachine.observe windowLog) aiming t Op.KeepsTile
    (fun _ => True) (fun _ => True) where
  steady := aim_steady
  plain _ ho := keepsTile_of_plain ho
  quiet f hf := keepsTile_of_same fun c => by rw [hf c]
  unverify := keepsTile_of_same fun _ => rfl
  access _ _ := ⟨keepsTile_of_not_store nofun, fun _ => keepsTile_of_not_store nofun⟩
  outside hp := by
    refine aim_keeps (hp.mono fun o ho => ?_)
    rcases ho with ho | ho
    · exact ho
    · refine keepsTile_of_not_store fun f hf => ?_
      subst hf
      exact ho
  held := aim_keeps
  acquire := aim_keeps ((within_perform _).mpr (keepsTile_of_not_store nofun))
  release := aim_keeps ((within_perform _).mpr (keepsTile_of_not_store nofun))

theorem arcScope_keepsTile : ArcScope (fun _ _ => True) Op.KeepsTile where
  toMailScope := (footRegions_aim .ioctl).mailScope
  store _ _ _ _ hf := hf.keepsTile
  iatu _ _ _ off := (footRegions_aim .ioctl).access _ off
  nocId _ _ _ off := ((footRegions_aim .ioctl).access _ off).1

/-- The arm records the tile it detects. -/
theorem armLocked_keepsTile : armLocked.Only Op.KeepsTile := by
  have hword : ∀ off v, Op.KeepsTile (.bufferWrite off v) :=
    fun _ _ => keepsTile_of_not_store nofun
  have hverify : ∀ status, (setVerified status).Only Op.KeepsTile := fun status =>
    Within.ite (fun _ => trivial) fun _ => ⟨keepsTile_of_same fun _ => rfl, fun _ _ =>
      ⟨keepsTile_of_same fun _ => rfl, fun _ _ => trivial⟩⟩
  have hstages : armStages.Only Op.KeepsTile := by
    rw [armStages_eq]
    exact (armChecks_within arcScope_keepsTile hword).bind fun status => hverify status
  refine ⟨keepsTile_of_same fun _ => rfl, fun _ _ => ⟨keepsTile_of_plain trivial, fun c _ => ?_⟩⟩
  exact Within.ite (fun _ => trivial) fun _ => hstages.bind fun _ =>
    ⟨keepsTile_of_same fun _ => rfl, fun _ _ => trivial⟩

theorem configScope_keepsTile : ConfigScope Op.KeepsTile where
  plain _ ho := keepsTile_of_plain ho
  setBusData _ _ _ := keepsTile_of_not_store nofun
  setFileGen _ _ := keepsTile_of_not_store nofun
  store f hf := keepsTile_of_same fun c => by rw [(hf c).1]

theorem requestRegions_aim (fileObject : Option FileObject) :
    RequestRegions (driverMachine.observe windowLog) aiming fileObject (fun _ => True) (fun _ => True)
      (fun _ => True) (fun _ => True) := by
  have hfoot := footRegions_aim .ioctl
  have harm := aim_keeps (t := .ioctl) armLocked_keepsTile
  have hother : ∀ {o : Op}, (∀ f, o ≠ .store f) → o.KeepsTile := keepsTile_of_not_store
  refine hfoot.requestRegions (fun o ho => ?_) ⟨hother nofun, hother nofun⟩
    harm ?_ ?_
  · cases o with
    | store => exact (ho : False).elim
    | _ => exact .inl (hother nofun)
  · refine (hfoot.arcRegions harm).ioctlResetDevice (B := fun _ => True) ?_ hfoot.acquire ?_
    · refine Triple.weaken (hfoot.keeps ((within_perform _).mpr (hother nofun)))
        (fun _ h => h) fun busy _ h => ?_
      cases busy <;> exact h
    · exact aim_keeps (armReset_only configScope_keepsTile (hother nofun)
        (fun _ => hother nofun) _)
  · exact aim_keeps (recoverReset_within configScope_keepsTile.toBusScope.restoring
      (fun _ => configScope_keepsTile.store _ fun _ => ⟨rfl, id⟩)
      (configScope_keepsTile.store _ fun _ => ⟨rfl, id⟩) hfoot.access)

/-- PrepareHardware and ReleaseHardware forget the tile, if they touch it. -/
theorem hardwareScope_keepsTile : HardwareScope Op.KeepsTile where
  silent _ ho := keepsTile_of_plain ho.plain
  store _ _ _ _ hf := hf.keepsTile
  queryInterface := keepsTile_of_not_store nofun
  dereferenceInterface := keepsTile_of_not_store nofun
  allocContiguous _ _ _ := keepsTile_of_not_store nofun
  bufferZero _ := keepsTile_of_not_store nofun

theorem evtDeviceReleaseHardware_keepsTile : evtDeviceReleaseHardware.Only Op.KeepsTile := by
  have hother : ∀ {o : Op}, (∀ f, o ≠ .store f) → o.KeepsTile := keepsTile_of_not_store
  have hrevoke : revokeAllMappings.Only Op.KeepsTile := by
    refine ⟨hother nofun, fun _ _ => destroyAll_only ⟨hother nofun, fun _ => hother nofun, fun _ => hother nofun,
      fun _ => hother nofun, fun _ => hother nofun, fun _ _ => hother nofun, fun _ => hother nofun,
      fun _ => hother nofun, fun _ => hother nofun⟩ _⟩
  exact hrevoke.bind fun _ => releaseResources_only hardwareScope_keepsTile (fun _ _ _ hf => hf.keepsTile)
    (fun _ => hother nofun) (fun _ => hother nofun) (fun _ _ => hother nofun) fun _ _ => hother nofun

end Programs

/-! ## Every run -/

/-- The invariant speaks of the live threads' histories, the context, the lock and the registers. -/
theorem AimInv.congr {L L' : Tid → Prop} {x y : World × Windows} (h : AimInv L x)
    (hctx : y.1.ctx = x.1.ctx) (hlock : y.1.arcLock = x.1.arcLock) (hseen : y.2 = x.2)
    (hlive : ∀ t, L' t → y.1.hist t = [] ∨ L t ∧ y.1.hist t = x.1.hist t) : AimInv L' y := by
  refine ⟨by rw [hctx]; exact h.tile, fun t ht hl c hc => ?_, fun t ht hl hsteered => ?_,
    fun t ht hl hheld => ?_⟩ <;> rcases hlive t hl with hnew | ⟨hold, hhist⟩
  · rw [hnew] at hc
    cases hc
  · rw [hctx]
    exact h.card t ht hold c (hhist ▸ hc)
  · obtain ⟨off, v, -, hev⟩ := hsteered
    rw [hnew] at hev
    cases hev
  · rw [hlock]
    rw [hctx, hhist] at hsteered
    exact h.held t ht hold hsteered
  · refine ⟨⟨y.2.regs, fun b _ => ?_⟩, fun c hc => ?_⟩
    · rw [hnew]
      rfl
    · rw [hnew] at hc
      cases hc
  · obtain ⟨hregs, htile⟩ := h.aimed t ht hold (hlock ▸ hheld)
    refine ⟨?_, ?_⟩
    · rw [hhist, hctx, hseen]
      exact hregs
    · rw [hhist, hctx]
      exact htile

theorem begins_aim {L : Tid → Prop} {t : Tid} {p : Drv Unit} {x y : World × Windows}
    (h : Begins L t p x.1 y.1) :
    aiming.Safe (driverMachine.observe windowLog) t p (fun _ => aiming.post t) y := by
  have hdone : ∀ {u : Tid} {q : Drv Unit}, aiming.Keeps (driverMachine.observe windowLog) u (fun _ => True) q →
      aiming.Safe (driverMachine.observe windowLog) u q (fun _ => aiming.post u) y :=
    fun hq => Protocol.Safe.mono (hq y trivial) fun _ _ _ => trivial
  have hother : ∀ {o : Op}, (∀ f, o ≠ .store f) → o.KeepsTile := keepsTile_of_not_store
  generalize y.1 = w' at h
  cases h with
  | ioctl r code p => exact hdone ((requestRegions_aim r.fileObject).evtIoDeviceControl code)
  | power cb p =>
    have harc := (footRegions_aim .power).arcRegions (aim_keeps armLocked_keepsTile)
    exact hdone (harc.powerCallback cb)
  | prepare resources p =>
    have hprepare := evtDevicePrepareHardware_within hardwareScope_keepsTile (fun _ _ hf => hf.keepsTile)
      (fun _ _ => hother nofun) (fun _ _ => hother nofun) resources
    exact hdone (aim_keeps (hprepare.bind fun _ => trivial))
  | release p => exact hdone (aim_keeps evtDeviceReleaseHardware_keepsTile)
  | create fo p =>
    refine hdone (aim_keeps ((evtDeviceFileCreate_only fo).mono fun o ho => hother fun f hf => ?_))
    subst hf
    exact ho
  | cleanup fo p =>
    refine hdone (aim_keeps ((evtFileCleanup_only fo).mono fun o ho => hother fun f hf => ?_))
    subst hf
    exact ho

theorem aim_sound : aiming.Sound (driver.observe windowLog) where
  toSteady := aim_steady
  initial x hx := by
    obtain ⟨⟨buffer, hworld⟩, -⟩ := hx
    refine ⟨.inl ?_, fun _ _ h => h.elim, fun _ _ h => h.elim, fun _ _ h => h.elim⟩
    rw [hworld]
  compat _ _ _ _ _ _ _ _ _ _ _ := trivial
  begins L t p x y hb hnl hinv _ := by
    obtain ⟨hb, hseen⟩ := hb
    have hlock : y.1.arcLock = x.1.arcLock := by
      generalize y.1 = w' at hb
      cases hb <;> rfl
    refine ⟨hinv.congr (begins_ctx hb) hlock hseen fun u hu => ?_, fun _ _ => trivial, begins_aim hb⟩
    by_cases hut : u = t
    · subst hut
      exact .inl (begins_hist_self hb)
    · exact .inr ⟨hu.resolve_left hut, begins_hist hb hut⟩
  ends L t x y he hl hinv _ _ := by
    obtain ⟨he, hseen⟩ := he
    have hleave : y.1 = x.1.leave t := he
    have hsame : y.1.ctx = x.1.ctx ∧ y.1.arcLock = x.1.arcLock ∧ y.1.hist = x.1.hist := by
      rw [hleave]
      cases t <;> exact ⟨rfl, rfl, rfl⟩
    obtain ⟨hctx, hlock, hhist⟩ := hsame
    exact ⟨hinv.congr hctx hlock hseen fun u hu => .inr ⟨hu.2, by rw [hhist]⟩, fun _ _ => trivial⟩
  env L x y he hinv _ := by
    have hsame : y.1.ctx = x.1.ctx ∧ y.1.arcLock = x.1.arcLock ∧ y.1.hist = x.1.hist ∧ y.2 = x.2 := by
      rcases he with ⟨he, hseen⟩ | ⟨-, n, hdrift⟩
      · refine ⟨environment_ctx he, ?_, ?_, hseen⟩ <;> generalize y.1 = w' at he <;> cases he <;> rfl
      · cases hdrift
    obtain ⟨hctx, hlock, hhist, hseen⟩ := hsame
    exact ⟨hinv.congr hctx hlock hseen fun u hu => .inr ⟨hu, by rw [hhist]⟩, fun _ _ => trivial⟩

/-- The threads at work are on target in every reachable configuration. -/
theorem reach_aimInv {c : WatchedConfig Windows} (h : Reach (driver.observe windowLog) anyStep c) :
    AimInv c.live c.world := by
  have hreach : Reach (driver.observe windowLog) aiming.allow c := by
    refine h.restrict fun c t o k hc hp _ => ?_
    have hallow : steering.allow t o c.world := mmio_sound.about (reach_unwatched hc) hp trivial
    exact ⟨hallow, steering_sound.about (reach_steering hc) hp hallow steering_known⟩
  refine (aim_sound.good hreach fun c hc => ?_).inv
  exact ⟨reach_mmioInv (reach_unwatched hc), reach_allocatorInv (reach_unwatched hc)⟩

/-! ## The accesses -/

/-- The thread's call has come into `f`, and `q` is left of it. -/
def Inside {G α : Type} (c : WatchedConfig G) (t : Tid) (f q : Drv α) : Prop :=
  ∃ (p : Drv Unit) (k : α → Drv Unit) (evs evs' : List Event), c.world.1.Call p t ∧ p.Leads evs (f >>= k) ∧
    f.Leads evs' q ∧ c.world.1.hist t = evs' ++ evs ∧ c.pool t = some (q >>= k)

/-- The registers of the kernel window decode to NOC 0, unicast, strict ordering and the tile, its
block and the offset add up to the address, and the dword there lies inside the window. -/
structure Hits (s : Windows) (tile : UInt32) (a : UInt64) (off : Nat) : Prop where
  aimed : ∃ cfg, s.Holds kernelTlbIndex cfg ∧ cfg.noc = 0 ∧ cfg.mcast = 0 ∧ cfg.ordering = 1 ∧
    cfg.xEnd.toUInt32 = tile ∧ cfg.yEnd = 0 ∧ cfg.addr.toNat + off = a.toNat
  inside : off + 4 ≤ tlb2mSize.toNat

/-- The configuration a dword of a tile is accessed with. -/
def aimConfig (tile : UInt32) (a : UInt64) : NocTlbConfig :=
  { addr := blockOf a, xEnd := tile.toUInt16, ordering := 1 }

theorem blockOf_toNat (a : UInt64) : (blockOf a).toNat + (offsetIn a).toNat = a.toNat := by
  have hsum : (blockOf a + offsetIn a).toNat = a.toNat := by rw [block_add_offset]
  have hle : (blockOf a).toNat ≤ a.toNat := by
    rw [blockOf, UInt64.toNat_and]
    exact Nat.and_le_left
  have hoff := offsetIn_toNat a
  have hlt := a.toNat_lt
  rw [UInt64.toNat_add] at hsum
  omega

theorem hits_of_holds {s : Windows} {tile : UInt32} {a : UInt64} (htile : TileKnown tile ∨ tile = 8)
    (ha : a &&& 3 = 0) (h : s.Holds kernelTlbIndex (aimConfig tile a)) :
    Hits s tile a (offsetIn a).toNat := by
  have hexact : tile.toUInt16.toUInt32 = tile := by
    rcases htile with (rfl | rfl | rfl) | rfl <;> rfl
  have haligned : a.toNat % 4 = 0 := by
    have hmask : (a &&& 3).toNat = a.toNat % 2 ^ 2 := by
      rw [UInt64.toNat_and, ← Nat.and_two_pow_sub_one_eq_mod]
      rfl
    rw [ha] at hmask
    exact hmask.symm
  have hwindow : tlb2mSize.toNat = 2 ^ 21 := rfl
  refine ⟨⟨_, h, rfl, rfl, rfl, hexact, rfl, blockOf_toNat a⟩, ?_⟩
  rw [hwindow, offsetIn_toNat]
  omega

/-- What aiming the window leaves in the history, between a load and the next. -/
def aimEvents (cfg : NocTlbConfig) (c c' : DeviceContext) : List Event :=
  ⟨.load, c'⟩ :: ((imageWrites kernelTlbIndex (packTlb2M cfg).1.toUInt32 ((packTlb2M cfg).1 >>> 32).toUInt32
    (packTlb2M cfg).2).reverse.map fun e => ⟨.mmioWrite c.tlbRegs e.1 e.2, ()⟩) ++ [⟨.load, c⟩]

/-- Aiming the window performs these. -/
theorem aimEvents_leads {α : Type} (cfg : NocTlbConfig) (f : DeviceContext → Drv α) (c c' : DeviceContext) :
    (programTlb2M kernelTlbIndex cfg >>= fun _ => Prog.vis .load f).Leads (aimEvents cfg c c') (f c') := by
  have hload : (Prog.vis .load f : Drv α).Leads [⟨.load, c'⟩] (f c') :=
    Leads.prepend (S := DriverSig) (o := .load) (k := f) (x := c') .start
  have hprogram : (programTlb2M kernelTlbIndex cfg).Leads ((aimEvents cfg c c').tail) (.pure ()) := by
    unfold programTlb2M
    exact leads_vis.mpr ⟨c, _, rfl, leads_vis.mpr ⟨(), _, rfl, leads_vis.mpr ⟨(), _, rfl, leads_vis.mpr
      ⟨(), _, rfl, .start⟩⟩⟩⟩
  have hfirst : (programTlb2M kernelTlbIndex cfg >>= fun _ => Prog.vis .load f).Leads (aimEvents cfg c c').tail
      (.vis .load f) := hprogram.bind fun _ => Prog.vis .load f
  exact hfirst.append hload

/-- An access at the end of an aimed window is its own, or one of those that aim it. -/
theorem leads_aimed {α : Type} {cfg : NocTlbConfig} {f : DeviceContext → Drv α} {evs : List Event} {o : Op}
    {k : o.Ans → Drv α} (h : (programTlb2M kernelTlbIndex cfg >>= fun _ => Prog.vis .load f).Leads evs (.vis o k))
    (ho : o.register ≠ none) :
    (∃ c off, (⟨.load, c⟩ : Event) ∈ evs ∧ o.register = some (c.tlbRegs, off)) ∨
      ∃ c c' rest, evs = rest ++ aimEvents cfg c c' ∧ (f c').Leads rest (.vis o k) := by
  have hlast : ∀ {o' : Op} {k' : o'.Ans → Drv α}, (Prog.vis o k : Drv α) = .vis o' k' → o = o' := by
    intro o' k' heq
    cases heq
    rfl
  rcases h.first with ⟨-, heq⟩ | ⟨c, rest₀, rfl, h₁⟩
  · rw [hlast heq] at ho
    exact absurd rfl ho
  rcases h₁.first with ⟨rfl, heq⟩ | ⟨_, rest₁, rfl, h₂⟩
  · exact .inl ⟨c, _, List.mem_cons_self, by rw [hlast heq]; rfl⟩
  rcases h₂.first with ⟨rfl, heq⟩ | ⟨_, rest₂, rfl, h₃⟩
  · exact .inl ⟨c, _, by simp, by rw [hlast heq]; rfl⟩
  rcases h₃.first with ⟨rfl, heq⟩ | ⟨_, rest₃, rfl, h₄⟩
  · exact .inl ⟨c, _, by simp, by rw [hlast heq]; rfl⟩
  have h₄ : (Prog.vis .load f : Drv α).Leads rest₃ (.vis o k) := h₄
  rcases h₄.first with ⟨-, heq⟩ | ⟨c', rest, rfl, h₅⟩
  · rw [hlast heq] at ho
    exact absurd rfl ho
  refine .inr ⟨c, c', rest, ?_, h₅⟩
  simp [aimEvents, imageWrites]

/-- Who has just aimed the window under ArcLock finds it so. -/
theorem holds_of_aimed {x : World × Windows} {L : Tid → Prop} {t : Tid} (ht : t.Works) (hl : L t)
    (hinv : AimInv L x) {cfg : NocTlbConfig} (ha : cfg.addr &&& (tlb2mSize - 1) = 0) {c c' : DeviceContext}
    {before : List Event} (hhist : x.1.hist t = aimEvents cfg c c' ++ before) :
    (cfg.inRange = true → x.2.Holds kernelTlbIndex cfg) ∧ c'.card = x.1.ctx.card ∧
      ∀ c'' evs, before = ⟨.load, c''⟩ :: evs → c''.pcieTileX = x.1.ctx.pcieTileX := by
  have hrecent : recent (x.1.hist t) = aimEvents cfg c c' ++ recent before := by
    rw [hhist]
    rfl
  have hcard : ∀ d, (⟨.load, d⟩ : Event) ∈ aimEvents cfg c c' → d.card = x.1.ctx.card := by
    intro d hd
    apply hinv.card t ht hl
    rw [hhist]
    exact List.mem_append_left _ hd
  have hptr : c.tlbRegs = x.1.ctx.tlbRegs :=
    congrFun (congrArg Card.ptr (hcard c (by simp [aimEvents]))) .tlbRegs
  have hlock : x.1.arcLock = some t := by
    refine hinv.held t ht hl ⟨kernelTlbIndex * tlbRegSize, (packTlb2M cfg).1.toUInt32, .inl rfl, ?_⟩
    rw [hrecent, ← hptr]
    simp [aimEvents, imageWrites]
  obtain ⟨⟨base, hregs⟩, htile⟩ := hinv.aimed t ht hl hlock
  have himage : ∀ b, KernelByte b → x.2.regs b = storeAll (rewrites x.1.ctx.tlbRegs base (recent before))
      (imageWrites kernelTlbIndex (packTlb2M cfg).1.toUInt32 ((packTlb2M cfg).1 >>> 32).toUInt32
        (packTlb2M cfg).2) b := by
    intro b hb
    rw [hregs b hb, hrecent, aimEvents, hptr]
    simp [imageWrites, rewrites, storeAll]
  have hapart : (imageWrites kernelTlbIndex (packTlb2M cfg).1.toUInt32 ((packTlb2M cfg).1 >>> 32).toUInt32
      (packTlb2M cfg).2).Pairwise fun e e' => e.1 + 4 ≤ e'.1 ∨ e'.1 + 4 ≤ e.1 := by
    simp [imageWrites]
  have hword : ∀ e ∈ imageWrites kernelTlbIndex (packTlb2M cfg).1.toUInt32
      ((packTlb2M cfg).1 >>> 32).toUInt32 (packTlb2M cfg).2, leNat x.2.regs e.1 4 = e.2.toNat := by
    intro e he
    rw [← leNat_storeAll hapart he]
    refine leNat_congr fun b hlo hhi => himage b ?_
    simp only [imageWrites, List.mem_cons, List.not_mem_nil, or_false] at he
    simp only [KernelByte, tlbRegSize] at *
    rcases he with rfl | rfl | rfl <;> simp only at hlo hhi <;> omega
  have h0 := hword _ List.mem_cons_self
  have h1 := hword _ (List.mem_cons_of_mem _ List.mem_cons_self)
  have h2 := hword _ (List.mem_cons_of_mem _ (List.mem_cons_of_mem _ List.mem_cons_self))
  refine ⟨fun hr => Windows.holds_of_regs hr ha h0 h1 h2 fun hlt => absurd hlt (by decide),
    hcard c' List.mem_cons_self, ?_⟩
  rintro c'' evs rfl
  apply htile
  rw [hrecent]
  simp [aimEvents, imageWrites, loadedSince, recent]

/-- Only the threads at work access registers. -/
theorem works_of_register {w : World} {t : Tid} {o : Op} {k : o.Ans → Drv Unit} (h : w.InCall t (.vis o k))
    (ho : o.register ≠ none) : t.Works := by
  obtain ⟨p, hcall, hleads⟩ := h
  have hnone : ∀ {K : Op → Prop}, p.Only K → (∀ o, K o → o.register = none) → False :=
    fun hp hK => ho (hK o (hleads.only hp).1.1)
  cases t with
  | ioctl => exact .inl rfl
  | power => exact .inr rfl
  | hardware =>
    have hK : ∀ o, hardwareFoot o → o.register = none := by
      intro o ho
      cases o <;> first | rfl | exact (ho : False).elim
    rcases hcall with ⟨resources, rfl⟩ | rfl
    · refine (hnone (((evtDevicePrepareHardware_only resources).mono fun _ => hardwareFoot_of_prepare).bind
        fun _ => trivial) hK).elim
    · exact (hnone evtDeviceReleaseHardware_only hK).elim
  | create fo =>
    obtain rfl : p = _ := hcall
    refine (hnone (evtDeviceFileCreate_only fo) fun o ho => ?_).elim
    cases o <;> first | rfl | exact (ho : False).elim
  | cleanup fo =>
    obtain rfl : p = _ := hcall
    refine (hnone (evtFileCleanup_only fo) fun o ho => ?_).elim
    cases o <;> first | rfl | exact (ho : False).elim

section Accesses

variable {c : WatchedConfig Windows} (h : Reach (driver.observe windowLog) anyStep c) {t : Tid} {o : Op}
  {off : Nat} (ho : o.register = some (c.world.1.ctx.kernelTlb, off))

include h ho

/-- An access through the kernel window, at the end of what aims it, finds it aimed. -/
theorem holds_at_access {α : Type} {cfg : NocTlbConfig} {f : DeviceContext → Drv α} {k : o.Ans → Drv α}
    {k' : o.Ans → Drv Unit} {evs before : List Event} {off' : Nat} (hpool : c.pool t = some (.vis o k'))
    (hleads : (programTlb2M kernelTlbIndex cfg >>= fun _ => Prog.vis .load f).Leads evs (.vis o k))
    (hhist : c.world.1.hist t = evs ++ before) (ha : cfg.addr &&& (tlb2mSize - 1) = 0)
    (hf : ∀ c' rest, (f c').Leads rest (.vis o k) → rest = [] ∧ o.register = some (c'.kernelTlb, off')) :
    (cfg.inRange = true → c.world.2.Holds kernelTlbIndex cfg) ∧ off = off' ∧
      ∀ c'' evs', before = ⟨.load, c''⟩ :: evs' → c''.pcieTileX = c.world.1.ctx.pcieTileX := by
  have hany := reach_unwatched h
  have hsome : o.register ≠ none := by
    rw [ho]
    exact Option.some_ne_none _
  have ht : t.Works := works_of_register (reach_inCall hany hpool) hsome
  have hl : c.live t := by
    rw [Config.live, hpool]
    exact Option.some_ne_none _
  have hinv := reach_aimInv h
  rcases leads_aimed hleads hsome with ⟨c₁, off₁, hmem, hreg⟩ | ⟨c₁, c', rest, rfl, hrest⟩
  · -- the blocks are mapped apart, so this is no access through the window
    have hcard := hinv.card t ht hl c₁ (hhist ▸ List.mem_append_left _ hmem)
    have hready := ready_of_works ht hl (reach_mmioInv hany)
    obtain ⟨-, ⟨m, -, hbase⟩, -⟩ := mmio_sound.about hany hpool trivial |>.1 _ _ ho
    have hptr : c.world.1.ctx.ptr .tlbRegs = c.world.1.ctx.ptr .kernelTlb := by
      have hsame : c₁.tlbRegs = c.world.1.ctx.ptr .tlbRegs := congrFun (congrArg Card.ptr hcard) .tlbRegs
      rw [← hsame]
      exact (Prod.mk.inj (Option.some.inj (hreg.symm.trans ho))).1
    have hne : c.world.1.ctx.ptr .tlbRegs ≠ none := by
      rw [hptr]
      show c.world.1.ctx.kernelTlb ≠ none
      rw [← hbase]
      exact Option.some_ne_none _
    cases hready.apart .tlbRegs .kernelTlb hptr hne
  · obtain ⟨rfl, hreg⟩ := hf c' rest hrest
    obtain ⟨hholds, -, htile⟩ := holds_of_aimed ht hl hinv ha hhist
    exact ⟨hholds, (Prod.mk.inj (Option.some.inj (ho.symm.trans hreg))).2, htile⟩

end Accesses

/-- Whatever the threads do meanwhile, an access through the kernel window made for
`arcNocRead32`, `arcNocWrite32` or `sysmemNocRead32` at a 4-byte aligned address finds the window
aimed at it: at the ARC tile for the first two, at the detected PCIe tile for the third. -/
theorem kernel_accesses_hit {c : WatchedConfig Windows} (h : Reach (driver.observe windowLog) anyStep c)
    {a : UInt64} (ha : a &&& 3 = 0) {t : Tid} {o : Op} {off : Nat}
    (ho : o.register = some (c.world.1.ctx.kernelTlb, off)) :
    (∀ k, Inside c t (arcNocRead32 a) (.vis o k) → Hits c.world.2 8 a off) ∧
    (∀ v k, Inside c t (arcNocWrite32 a v) (.vis o k) → Hits c.world.2 8 a off) ∧
    ∀ k, Inside c t (sysmemNocRead32 a) (.vis o k) → Hits c.world.2 c.world.1.ctx.pcieTileX a off := by
  have harc : (arcConfig a).inRange = true := rfl
  refine ⟨?_, ?_, ?_⟩
  · rintro k ⟨p, k', evs, evs', -, -, hleads, hhist, hpool⟩
    have hleads : (programTlb2M kernelTlbIndex (arcConfig a) >>= fun _ => Prog.vis .load fun c' =>
      readRegister c'.kernelTlb (offsetIn a).toNat).Leads evs' (.vis o k) := hleads
    obtain ⟨hholds, rfl, -⟩ := holds_at_access h ho hpool hleads hhist (blockOf_aligned a) fun c' rest hrest => by
      obtain ⟨rfl, rfl⟩ := hrest.of_perform
      exact ⟨rfl, rfl⟩
    exact hits_of_holds (.inr rfl) ha (hholds harc)
  · rintro v k ⟨p, k', evs, evs', -, -, hleads, hhist, hpool⟩
    have hleads : (programTlb2M kernelTlbIndex (arcConfig a) >>= fun _ => Prog.vis .load fun c' =>
      writeRegister c'.kernelTlb (offsetIn a).toNat v).Leads evs' (.vis o k) := hleads
    obtain ⟨hholds, rfl, -⟩ := holds_at_access h ho hpool hleads hhist (blockOf_aligned a) fun c' rest hrest => by
      obtain ⟨rfl, rfl⟩ := hrest.of_perform
      exact ⟨rfl, rfl⟩
    exact hits_of_holds (.inr rfl) ha (hholds harc)
  · rintro k ⟨p, k', evs, evs', -, -, hleads, hhist, hpool⟩
    rcases hleads.first with ⟨-, hq⟩ | ⟨c₀, rest, rfl, hread⟩
    · have hload : o = .load := by
        cases hq
        rfl
      subst hload
      cases ho
    have hread : (programTlb2M kernelTlbIndex (aimConfig c₀.pcieTileX a) >>= fun _ => Prog.vis .load fun c' =>
      readRegister c'.kernelTlb (offsetIn a).toNat).Leads rest (.vis o k) := hread
    obtain ⟨hholds, rfl, htile⟩ := holds_at_access h ho hpool hread (hhist.trans (List.append_assoc ..))
      (blockOf_aligned a) fun c' rest hrest => by
        obtain ⟨rfl, rfl⟩ := hrest.of_perform
        exact ⟨rfl, rfl⟩
    have htile : c₀.pcieTileX = c.world.1.ctx.pcieTileX := htile _ _ rfl
    have hknown := (reach_aimInv h).tile
    rw [htile] at hholds
    refine hits_of_holds (.inl hknown) ha (hholds ?_)
    rcases hknown with hx | hx | hx <;> rw [hx] <;> rfl

/-- The address the boot status is first read at. -/
def bootAddress : UInt64 := arcApbNocLowBase + arcBootStatus.toUInt64

/-- A power-up, up to its first read of the boot status. -/
theorem powerUp_probes {c c' : DeviceContext} (hneeds : c.needsHwInit = false)
    (hptr : ¬ (c.kernelTlb = none ∨ c.tlbRegs = none)) :
    evtDeviceSelfManagedIoInit.Calls [⟨.load, c'⟩, ⟨.deadline arcReadyTimeoutMs, (0 : Nat)⟩, ⟨.load, c⟩,
      ⟨.acquire .arc, ()⟩] (arcNocRead32 bootAddress) := by
  have hread : ∀ {α : Type} (k : UInt32 → Drv α), (arcNocRead32 bootAddress >>= k).Calls [] (arcNocRead32 bootAddress) :=
    Calls.start _
  have hprobe : (probeRoutes (fun _ => 0xFFFFFFFF) true arcRouteOrder).Calls [⟨.load, c'⟩]
      (arcNocRead32 bootAddress) := by
    unfold arcRouteOrder probeRoutes
    refine Calls.perform (e := []) ?_
    exact Calls.ite (fun h => nomatch h.1) (hread _)
  have hlocate : arcLocateQueue.Calls [⟨.load, c'⟩, ⟨.deadline arcReadyTimeoutMs, (0 : Nat)⟩]
      (arcNocRead32 bootAddress) := by
    refine Calls.perform (S := DriverSig) (e := ([⟨Op.load, c'⟩] : List Event)) ?_
    exact (hprobe.bind _ : (pollRoutes (fun _ => 0xFFFFFFFF) 0).Calls _ _).bind _
  have hsend : ∀ msg, (arcSendLocked msg).Calls [⟨.load, c'⟩, ⟨.deadline arcReadyTimeoutMs, (0 : Nat)⟩, ⟨.load, c⟩]
      (arcNocRead32 bootAddress) := by
    intro msg
    refine Calls.perform (S := DriverSig) (e := ([⟨Op.load, c'⟩, ⟨Op.deadline arcReadyTimeoutMs, (0 : Nat)⟩] : List Event)) ?_
    refine Calls.ite ?_ (Calls.ite hptr (hlocate.bind _))
    rw [hneeds]
    nofun
  have hsync : ∀ msg, (arcMsgSendSync msg).Calls [⟨.load, c'⟩, ⟨.deadline arcReadyTimeoutMs, (0 : Nat)⟩, ⟨.load, c⟩,
      ⟨.acquire .arc, ()⟩] (arcNocRead32 bootAddress) := by
    intro msg
    unfold arcMsgSendSync
    refine Calls.perform (S := DriverSig) (e := ([⟨.load, c'⟩, ⟨.deadline arcReadyTimeoutMs, (0 : Nat)⟩, ⟨.load, c⟩] : List Event)) ?_
    exact (hsend msg).bind _
  exact (((hsync _).bind _).bind _).bind _

/-- A card arrives, and its power-up is about to read the boot status. -/
def probingRun : List Move :=
  cardArrives 0x10000000 ++ [.power .init 0, .ops .power (plainOps 2 ++ [.count 0] ++ plainOps 6)]

/-- The power-up is in its first read of the boot status, with the window aimed. -/
def probing (c : WatchedConfig Windows) : Bool :=
  match c.world.1.hist .power with
  | [⟨.load, c₂⟩, ⟨.mmioWrite p₃ o₃ v₃, ()⟩, ⟨.mmioWrite p₂ o₂ v₂, ()⟩, ⟨.mmioWrite p₁ o₁ v₁, ()⟩, ⟨.load, c₁⟩,
      ⟨.load, _⟩, ⟨.deadline ms, n⟩, ⟨.load, c₀⟩, ⟨.acquire .arc, ()⟩] =>
    !c₀.needsHwInit && c₀.kernelTlb != none && c₀.tlbRegs != none && ms == arcReadyTimeoutMs && (n : Nat) == 0 &&
      [p₁, p₂, p₃] == [c₁.tlbRegs, c₁.tlbRegs, c₁.tlbRegs] &&
      [(o₁, v₁), (o₂, v₂), (o₃, v₃)] == imageWrites kernelTlbIndex (packTlb2M (arcConfig bootAddress)).1.toUInt32
        ((packTlb2M (arcConfig bootAddress)).1 >>> 32).toUInt32 (packTlb2M (arcConfig bootAddress)).2 &&
      c₂.kernelTlb == c.world.1.ctx.kernelTlb && (c.pool .power).isSome
  | _ => false

theorem kernel_accesses_hit_boot_status :
    ∃ (c : WatchedConfig Windows) (k : UInt32 → Drv UInt32), Reach (driver.observe windowLog) anyStep c ∧
      Inside c .power (arcNocRead32 bootAddress) (.vis (.mmioRead c.world.1.ctx.kernelTlb 0x30408) k) ∧
      Hits c.world.2 8 bootAddress 0x30408 := by
  have hplay : (WatchedConfig.play windowLog (fun _ _ _ => true) (probingRun.map .driver)
      (idle.watched ⟨fun _ => 0xFF, fun _ => none⟩)).any probing = true := by decide +kernel
  have hinitial : windowLog.initial {} ⟨fun _ => 0xFF, fun _ => none⟩ := rfl
  obtain ⟨c, hreach, hend⟩ := WatchedConfig.exists_reach (fun _ _ _ _ => trivial) hinitial hplay
  unfold probing at hend
  split at hend
  · rename_i c₂ p₃ o₃ v₃ p₂ o₂ v₂ p₁ o₁ v₁ c₁ c' ms n c₀ hhist
    simp only [Bool.and_eq_true, beq_iff_eq, bne_iff_ne, Bool.not_eq_true', List.cons.injEq, and_true, imageWrites,
      Prod.mk.injEq] at hend
    obtain ⟨⟨⟨⟨⟨⟨⟨⟨hneeds, hwindow⟩, hregs⟩, rfl⟩, rfl⟩, rfl, rfl, rfl⟩, ⟨rfl, rfl⟩, ⟨rfl, rfl⟩, rfl, rfl⟩, hptr⟩, hlive⟩ := hend
    obtain ⟨q, hpool⟩ := Option.isSome_iff_exists.mp hlive
    obtain ⟨p, ⟨cb, rfl⟩, hleads⟩ := reach_inCall (reach_unwatched hreach) hpool
    have hleads : cb.code.Leads (c.world.1.hist .power) q := hleads
    rw [hhist] at hleads
    have hcode : cb.code = evtDeviceSelfManagedIoInit := by
      cases cb with
      | init => rfl
      | restart => rfl
      | suspend =>
        -- Suspend stores right after it has taken ArcLock
        obtain ⟨_, h₈, -⟩ := leads_cons hleads
        obtain ⟨_, h₇, -⟩ := leads_cons h₈
        obtain ⟨_, h₆, -⟩ := leads_cons h₇
        obtain ⟨_, h₅, -⟩ := leads_cons h₆
        obtain ⟨_, h₄, -⟩ := leads_cons h₅
        obtain ⟨_, h₃, -⟩ := leads_cons h₄
        obtain ⟨_, h₂, -⟩ := leads_cons h₃
        obtain ⟨k₁, h₁, -⟩ := leads_cons h₂
        obtain ⟨k₀, h₀, hq⟩ := leads_cons h₁
        cases leads_nil h₀
        cases hq
    rw [hcode] at hleads
    have hclear : ¬ (c₀.kernelTlb = none ∨ c₀.tlbRegs = none) := fun h => h.elim hwindow hregs
    obtain ⟨k, hbegun⟩ := @powerUp_probes _ c' hneeds hclear
    have hread : (arcNocRead32 bootAddress).Leads (aimEvents (arcConfig bootAddress) c₁ c₂)
        (.vis (.mmioRead c₂.kernelTlb (offsetIn bootAddress).toNat) .pure) :=
      aimEvents_leads (arcConfig bootAddress) (fun c => readRegister c.kernelTlb (offsetIn bootAddress).toNat) c₁ c₂
    have hq := hleads.unique (hbegun.append (hread.bind k))
    rw [hptr] at hread hq
    have hinside : Inside c .power (arcNocRead32 bootAddress)
        (.vis (.mmioRead c.world.1.ctx.kernelTlb (offsetIn bootAddress).toNat) .pure) :=
      ⟨_, k, _, _, ⟨.init, rfl⟩, hbegun, hread, hhist, by rw [hpool, hq]⟩
    exact ⟨c, _, hreach, hinside, (kernel_accesses_hit hreach (by decide) rfl).1 _ hinside⟩
  · cases hend

end TtWind
