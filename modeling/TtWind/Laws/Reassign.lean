import TtWind.Laws.Resave

/-!
# Loads the BARs

The saved config of a restricted device outlives its hardware: PnP may stop the device and start it
with other addresses while the image that RESET_DEVICE captured stays. POST_RESET writes it back as
it is. So the BARs it writes are those that the last PrepareHardware has recorded as long as these
are the ones that were recorded when the image was captured.
-/

set_option autoImplicit false

namespace TtWind

open TtWind.Effect TtWind.Effect.Prog

/-- The byte of config space that holds part of an assigned address: three 64-bit BARs from 0x10 on. -/
def barByte (assigned : List UInt64) (i : Nat) : Option UInt8 :=
  if 0x10 ≤ i ∧ i < 0x28 then
    (assigned[(i - 0x10) / 8]?).map fun a => UInt8.ofNat (a.toNat / 256 ^ ((i - 0x10) % 8))
  else none

/-- The address bits of the BARs: all but the low four of each. -/
def barMask (i : Nat) : UInt8 :=
  if 0x10 ≤ i ∧ i < 0x28 then if (i - 0x10) % 8 = 0 then 0xF0 else 0xFF else 0

/-- Of `len` bytes of config space from an offset on, those that belong to the BARs carry the assigned
addresses. -/
def Carries (assigned : List UInt64) (off len : Nat) (data : List UInt8) : Prop :=
  ∀ k < len, ∀ b ∈ barByte assigned (off + k), SameBits (barMask (off + k)) (data.getD k 0) b

instance (assigned : List UInt64) (off len : Nat) (data : List UInt8) : Decidable (Carries assigned off len data) :=
  decidable_of_iff (∀ k < len, ((barByte assigned (off + k)).all fun b =>
    SameBits (barMask (off + k)) (data.getD k 0) b) = true) (by simp [Carries, Option.all_eq_true])

theorem barByte_of_outside {assigned : List UInt64} {i : Nat} (h : ¬ (0x10 ≤ i ∧ i < 0x28)) :
    barByte assigned i = none := if_neg h

theorem barByte_inside {assigned : List UInt64} {i : Nat} {b : UInt8} (h : barByte assigned i = some b) :
    0x10 ≤ i ∧ i < 0x28 := by
  by_contra hn
  rw [barByte_of_outside hn] at h
  cases h

theorem SameBits.trans {mask a b c : UInt8} (h₁ : SameBits mask a b) (h₂ : SameBits mask b c) : SameBits mask a c :=
  Eq.trans h₁ h₂

/-! ## What a restore writes -/

/-- What the loads of a request have shown: that the device is restricted, and its saved config. -/
structure Loads where
  restricted : Bool := false
  saved : Option (Nat → UInt8) := none

namespace Loads

open Classical in
/-- One event further. -/
noncomputable def next : Event → Loads → Loads
  | ⟨.load, c⟩, s => ⟨s.restricted || c.needsHwInit, some c.savedConfig⟩
  | ⟨.store f, _⟩, s => if LeavesSave f then s else {}
  | _, s => s

/-- In the first 256 bytes of config space a request writes the COMMAND register, and dwords of the
saved config of a restricted device. -/
def allows (s : Loads) : Op → Prop
  | .setBusData off data => off = pciCfgCommand ∧ data.length ≤ 4 ∨ pciCfgSaveBytes ≤ off ∨
      s.restricted = true ∧ ∃ saved i, s.saved = some saved ∧ off = i * 4 ∧ data = savedDword saved i
  | _ => True

theorem allows_of_spares (s : Loads) {o : Op} (h : o.SparesReset) : s.allows o := by
  cases o with
  | setBusData => exact h.elim
  | _ => trivial

/-- What the loads have shown is so. -/
structure Shows (s : Loads) (c : DeviceContext) : Prop where
  restricted : s.restricted = true → c.needsHwInit = true
  saved : ∀ saved, s.saved = some saved → c.savedConfig = saved

theorem Shows.congr {s : Loads} {c c' : DeviceContext} (h : s.Shows c) (hsaved : c'.savedConfig = c.savedConfig)
    (hneeds : c'.needsHwInit = c.needsHwInit) : s.Shows c' := by
  refine ⟨fun hs => ?_, fun saved hs => ?_⟩
  · rw [hneeds]
    exact h.restricted hs
  · rw [hsaved]
    exact h.saved saved hs

end Loads

section Walk

variable {s : Loads}

theorem armReset_restores (fileObject : Option FileObject) :
    Complies Loads.allows Loads.next (armReset fileObject) := by
  have harm : (armReset fileObject).Only fun o : Op => ∀ s : Loads, s.allows o := by
    refine armReset_within (fun o ho s => s.allows_of_spares (sparesReset_of_plain ho.plain)) (fun _ _ _ => trivial)
      (fun _ _ _ => trivial) (fun _ => trivial) (fun off hoff data hlen s => ?_) fileObject
    rcases hoff with rfl | rfl | rfl
    · exact .inl ⟨rfl, hlen⟩
    · exact .inr (.inl (by decide))
    · exact .inr (.inl (by decide))
  exact complies_of_only (fun s _ ho => ho s) harm

/-- Once the loads have shown a restricted device and its saved config, that is what is written. -/
theorem resetRestoreConfig_restores {saved : Nat → UInt8} (hs : s.restricted = true) (hsaved : s.saved = some saved) :
    (resetRestoreConfig saved).Follows (S := DriverSig) Loads.allows Loads.next (fun s' _ => s' = s) s := by
  have hdwords : ∀ is ok, (restoreDwords saved ok is).Follows (S := DriverSig) Loads.allows Loads.next
      (fun s' _ => s' = s) s := by
    intro is
    induction is with
    | nil => exact fun _ => rfl
    | cons i is ih =>
      refine fun ok => Follows.ite (fun _ => ih ok) fun _ => ⟨?_, fun _ => ih _⟩
      exact .inr (.inr ⟨hs, saved, i, hsaved, rfl, rfl⟩)
  refine (hdwords _ true).bind fun s' ok hs' => ?_
  subst hs'
  exact ⟨.inl ⟨rfl, by simp [savedDword]⟩, fun _ => rfl⟩

/-- What is known to be restricted stays so while nothing is stored. -/
theorem silent_restores {α : Type} {p : Drv α} (hp : p.Only Op.silent) (hs : s.restricted = true) :
    p.Follows (S := DriverSig) Loads.allows Loads.next (fun s' _ => s'.restricted = true) s := by
  induction p generalizing s with
  | pure a => exact hs
  | vis o k ih =>
    refine ⟨s.allows_of_spares (sparesReset_of_plain hp.1.plain), fun x => ih x (hp.2 x trivial) ?_⟩
    cases o with
    | load =>
      show (s.restricted || x.needsHwInit) = true
      rw [hs, Bool.true_or]
    | store => exact (hp.1 : False).elim
    | _ => exact hs

theorem recoverReset_restores : Complies Loads.allows Loads.next recoverReset := by
  have hspares : ∀ {α : Type} {p : Drv α}, p.Only Op.SparesReset → Complies Loads.allows Loads.next p :=
    fun hp => complies_of_only (fun s _ ho => s.allows_of_spares ho) hp
  intro s
  refine ⟨trivial, fun c => Follows.ite (fun _ => trivial) fun hneeds => ?_⟩
  have hs : (Loads.next ⟨.load, c⟩ s).restricted = true := by
    show (s.restricted || c.needsHwInit) = true
    rw [Bool.or_eq_true]
    exact .inr (by simpa using hneeds)
  generalize Loads.next ⟨.load, c⟩ s = s at hs
  have hread : ∀ off len, (cfgRead off len).Only Op.silent := fun _ _ => ⟨trivial, fun _ _ => trivial⟩
  have hpresent : devicePresent.Only Op.silent := ⟨trivial, fun _ _ => ⟨trivial, fun _ _ => trivial⟩⟩
  have hload : (op .load).Only Op.silent := ⟨trivial, fun _ _ => trivial⟩
  refine (silent_restores hload hs).bind fun s c hs => Follows.ite (fun _ => trivial) fun _ => ?_
  refine (silent_restores hpresent hs).bind fun s _ hs => Follows.ite (fun _ => trivial) fun _ => ?_
  refine (silent_restores (hread _ _) hs).bind fun s r hs => Follows.ite (fun _ => trivial) fun _ => ?_
  refine Follows.ite (fun _ => trivial) fun _ => ⟨trivial, fun c => ?_⟩
  have hrestricted : (Loads.next ⟨.load, c⟩ s).restricted = true := by
    show (s.restricted || c.needsHwInit) = true
    rw [hs, Bool.true_or]
  refine (resetRestoreConfig_restores hrestricted rfl).bind fun s _ _ => Follows.ite (fun _ => trivial) fun _ => ?_
  -- the rest writes no config space
  have hgate : kernelTlbSanityCheck.Only Op.SparesReset :=
    kernelTlbSanityCheck_within trivial fun _ _ _ _ => ⟨trivial, fun _ => trivial⟩
  refine (hspares (cfgRead_only (fun _ ho => sparesReset_of_plain ho.plain) 0 pciCfgSaveBytes) s).bind fun s r _ => ⟨trivial, fun _ => ?_⟩
  refine (hspares hgate _).bind fun s status _ => Follows.ite (fun _ => trivial) fun _ => ?_
  exact ⟨trivial, fun _ => trivial⟩

end Walk

/-! ## The account -/

/-- The condition: what restricted devices read back agrees with the captured image in the address
bits; and where the BARs in a restricted device's config are written, the captured image carries the
addresses that were assigned when it was captured, and these are assigned still. -/
def restoresTruly (t : Tid) (o : Op) (x : World × Images) : Prop :=
  resavesAgree barMask t o x ∧
    match o with
    | .setBusData off data => x.1.ctx.needsHwInit = true → off < 0x28 → 0x10 < off + data.length →
        Carries x.2.assigned 0 pciCfgSaveBytes x.2.captured ∧ x.1.ctx.assigned = x.2.assigned
    | _ => True

noncomputable def restores : Account Images Loads where
  log := imageLog
  allow := restoresTruly
  start := {}
  next := Loads.next
  allows := Loads.allows
  inv s c _ := s.Shows c

theorem restores_argued : restores.Argued where
  initial _ _ := ⟨nofun, nofun⟩
  again _ _ _ _ := ⟨nofun, nofun⟩
  follows fileObject code :=
    evtIoDeviceControl_complies (fun s _ => s.allows_of_spares) armReset_restores recoverReset_restores fileObject code _
  own {s o a e x y} _ _ he h := by
    obtain ⟨hexec, -, -⟩ := watched_exec he
    have h : s.Shows x.1.ctx := h
    show (Loads.next ⟨o, a⟩ s).Shows y.1.ctx
    rw [(World.exec_frame hexec).ctx]
    cases o with
    | load =>
      obtain ⟨w₁, hs, -⟩ := World.exec_step hexec
      obtain ⟨rfl, -⟩ := Prod.mk.inj (Option.some.inj hs)
      refine ⟨fun hr => ?_, fun saved hsaved => Option.some.inj hsaved⟩
      have hr : (s.restricted || x.1.ctx.needsHwInit) = true := hr
      rw [Bool.or_eq_true] at hr
      exact hr.elim h.restricted id
    | store f =>
      by_cases hleaves : LeavesSave f
      · have hkept : Loads.next ⟨.store f, ()⟩ s = s := if_pos hleaves
        show (Loads.next ⟨.store f, ()⟩ s).Shows (f x.1.ctx)
        rw [hkept]
        exact h.congr (hleaves x.1.ctx).1 (hleaves x.1.ctx).2
      · have hlost : Loads.next ⟨.store f, ()⟩ s = {} := if_neg hleaves
        show (Loads.next ⟨.store f, ()⟩ s).Shows (f x.1.ctx)
        rw [hlost]
        exact ⟨nofun, nofun⟩
    | locked sec =>
      refine h.congr ?_ ?_
      · rw [Op.effect, Section.run_frame x.1.ctx sec]
      · rw [Op.effect, Section.run_frame x.1.ctx sec]
    | _ => exact h
  other {s t o a e x y} ht hplaced he h := by
    obtain ⟨hexec, -, -⟩ := watched_exec he
    exact Loads.Shows.congr h (hplaced.saved ht hexec) (hplaced.needs ht hexec)
  drift hd _ := by cases hd

/-- The bytes of a dword of the saved config. -/
theorem savedDword_getD (saved : Nat → UInt8) (i : Nat) {k : Nat} (hk : k < 4) :
    (savedDword saved i).getD k 0 = saved (i * 4 + k) := by
  have hat : (savedDword saved i)[k]? = some (saved (4 * i + k)) := by
    simp [savedDword, hk]
  rw [List.getD_eq_getElem?_getD, hat, Option.getD_some, Nat.mul_comm]

/-- Whatever a request writes to config space, the BARs in it are those that the last PrepareHardware
has recorded, in every run whose steps meet the condition. -/
theorem restores_assigned {c c' : WatchedConfig Images} {off n : Nat} {data : List UInt8}
    (h : Reach (driver.observe imageLog) restoresTruly c)
    (hstep : Own (driver.observe imageLog) restoresTruly .ioctl (.setBusData off data) n c c') :
    Carries c.world.1.ctx.assigned off data.length data := by
  cases hstep with
  | exec hp ha he =>
    have hshows : (restores.state c.world.1).Shows c.world.1.ctx := restores_argued.reach h
    have hallows : (restores.state c.world.1).allows (.setBusData off data) := restores_argued.allows h hp
    intro k hk b hb
    have hinside := barByte_inside hb
    rcases hallows with ⟨hoff, hlen⟩ | habove | ⟨hrestricted, saved, i, hsaved, rfl, rfl⟩
    · unfold pciCfgCommand at hoff
      omega
    · unfold pciCfgSaveBytes at habove
      omega
    · have hneeds := hshows.restricted hrestricted
      obtain ⟨hcarries, hsame⟩ := ha.2 hneeds (by omega) (by omega)
      have hk : k < 4 := by simpa [savedDword] using hk
      have hat : i * 4 + k < pciCfgSaveBytes := Nat.lt_trans hinside.2 (by decide)
      have hgood : c.world.1.ctx.Holds barMask c.world.2.captured :=
        saved_config_good (h.restrict fun _ _ _ _ _ _ ha => ha.1) hneeds
      rw [savedDword_getD saved i hk, ← hshows.saved saved hsaved]
      refine (hgood _ hat).trans ?_
      rw [hsame] at hb
      have hcaptured := hcarries (i * 4 + k) hat b
      rw [Nat.zero_add] at hcaptured
      exact hcaptured hb

/-- The config space of a card whose BARs are at 0x4000000000 and 0x5000000000. -/
def cardConfig : List UInt8 :=
  List.replicate 0x10 0 ++ [0x0C, 0, 0, 0, 0x40, 0, 0, 0, 0x0C, 0, 0, 0, 0x50, 0, 0, 0] ++ List.replicate 0xE0 0

/-- RESET_DEVICE by handle 2 captures that config, and the hardware goes. -/
def resetsAndStops : List Move :=
  [.ioctl { fileObject := some 2, requestor := some 2, inLen := 8 } .resetDevice 2,
    .ops .ioctl (plainOps 9 ++ [.bytes [0x52, 0x1E]] ++ plainOps 2 ++ [.bytes cardConfig] ++ plainOps 2 ++
      [.bytes [0, 0], .count 2] ++ plainOps 5 ++ [.count 4, .count 4] ++ plainOps 2),
    .ends .ioctl, .release 0, .ops .hardware (plainOps 29), .ends .hardware]

/-- The hardware comes back with BAR 0 elsewhere. -/
def cardReturns (bar0 : UInt64) : List Move :=
  [.prepare [⟨.memory, 0, bar0, 0x20000000⟩, ⟨.memory, 0, 0x5000000000, 0x100000⟩] 0,
    .ops .hardware (plainOps 3 ++ [.bytes cardHeader] ++ plainOps 2 ++ [.word 1, .word 0] ++
      plainOps 7 ++ [.address 1, .unit, .address 2, .unit, .address 3, .unit, .address 4, .unit,
        .address 5, .unit, .unit, .region 6 0x10000000] ++ plainOps 6),
    .ends .hardware]

/-- POST_RESET by handle 2, up to the upper half of BAR 0. -/
def restoresBar0 : List Move :=
  [.ioctl { fileObject := some 2, requestor := some 2, inLen := 8 } .postReset 2,
    .ops .ioctl (plainOps 10 ++ [.bytes [0x52, 0x1E], .unit, .bytes [0, 0], .unit] ++ List.replicate 4 (.count 4))]

def restoresTrulyTest (_ : Tid) (o : Op) (x : World × Images) : Bool :=
  match o with
  | .store _ => !x.1.ctx.needsHwInit || x.2.transferred == x.2.captured
  | .setBusData off data => !x.1.ctx.needsHwInit || decide (0x28 ≤ off) || decide (off + data.length ≤ 0x10) ||
      (Carries x.2.assigned 0 pciCfgSaveBytes x.2.captured && x.1.ctx.assigned == x.2.assigned)
  | _ => true

theorem restoresTrulyTest_implies (t : Tid) (o : Op) (x : World × Images) (h : restoresTrulyTest t o x = true) :
    restoresTruly t o x := by
  cases o with
  | store f =>
    refine ⟨fun hneeds _ i _ => ?_, trivial⟩
    have hsame : x.2.transferred = x.2.captured := by simpa [restoresTrulyTest, hneeds] using h
    rw [hsame]
    rfl
  | setBusData off data =>
    refine ⟨trivial, fun hneeds hlow hhigh => ?_⟩
    simpa [restoresTrulyTest, hneeds, Nat.not_le.mpr hlow, Nat.not_le.mpr hhigh] using h
  | _ => exact ⟨trivial, trivial⟩

/-- The hardware returns where it was. -/
theorem restores_assigned_returning : ∃ (c c' : WatchedConfig Images) (n : Nat),
    Reach (driver.observe imageLog) restoresTruly c ∧
    Own (driver.observe imageLog) restoresTruly .ioctl (.setBusData 0x14 [0x40, 0, 0, 0]) n c c' ∧
      Carries c.world.1.ctx.assigned 0x14 4 [0x40, 0, 0, 0] := by
  have hplay : (WatchedConfig.play imageLog restoresTrulyTest
      ((cardArrives 0x10000000 ++ opens 2 2 ++ resetsAndStops ++ cardReturns 0x4000000000 ++ restoresBar0).map .driver)
      (idle.watched {})).any (fun c => busWrite (c.pool .ioctl) == some (0x14, [0x40, 0, 0, 0]) &&
        (WatchedConfig.ops imageLog restoresTrulyTest .ioctl [.count 4] c).isSome) = true := by decide +kernel
  obtain ⟨c, hreach, hend⟩ :=
    WatchedConfig.exists_reach restoresTrulyTest_implies (show imageLog.initial {} {} from rfl) hplay
  obtain ⟨hnext, hsome⟩ := Bool.and_eq_true_iff.mp hend
  obtain ⟨k, hpool⟩ := exists_of_busWrite (beq_iff_eq.mp hnext)
  obtain ⟨c', hops⟩ := Option.isSome_iff_exists.mp hsome
  obtain ⟨n, hstep⟩ := WatchedConfig.own_of_ops restoresTrulyTest_implies hops hpool
  exact ⟨c, c', n, hreach, hstep, restores_assigned hreach hstep⟩

/-- The hardware returns elsewhere, and the old address of BAR 0 is restored. -/
theorem restores_foreign : ¬ ∀ (c c' : WatchedConfig Images) (off n : Nat) (data : List UInt8),
    Reach (driver.observe imageLog) anyStep c →
      Own (driver.observe imageLog) anyStep .ioctl (.setBusData off data) n c c' →
        Carries c.world.1.ctx.assigned off data.length data := by
  intro hall
  have hplay : (WatchedConfig.play imageLog (fun _ _ _ => true)
      ((cardArrives 0x10000000 ++ opens 2 2 ++ resetsAndStops ++ cardReturns 0x6000000000 ++ restoresBar0).map .driver)
      (idle.watched {})).any (fun c => busWrite (c.pool .ioctl) == some (0x14, [0x40, 0, 0, 0]) &&
        ((WatchedConfig.ops imageLog (fun _ _ _ => true) .ioctl [.count 4] c).isSome &&
          !decide (Carries c.world.1.ctx.assigned 0x14 4 [0x40, 0, 0, 0]))) = true := by decide +kernel
  have hallow : ∀ (t : Tid) (o : Op) (x : World × Images), true = true → anyStep (S := DriverSig) t o x :=
    fun _ _ _ _ => trivial
  obtain ⟨c, hreach, hend⟩ := WatchedConfig.exists_reach hallow (show imageLog.initial {} {} from rfl) hplay
  obtain ⟨hnext, hrest⟩ := Bool.and_eq_true_iff.mp hend
  obtain ⟨hsome, hforeign⟩ := Bool.and_eq_true_iff.mp hrest
  have hforeign := of_decide_eq_false (Bool.not_eq_true' _ ▸ hforeign)
  obtain ⟨k, hpool⟩ := exists_of_busWrite (beq_iff_eq.mp hnext)
  obtain ⟨c', hops⟩ := Option.isSome_iff_exists.mp hsome
  obtain ⟨n, hstep⟩ := WatchedConfig.own_of_ops hallow hops hpool
  exact hforeign (hall c c' _ n _ hreach hstep)

end TtWind
