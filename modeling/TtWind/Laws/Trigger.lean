import Mathlib.Data.List.Basic
import TtWind.Laws.Account
import TtWind.Laws.Refusal

/-!
# The chip that is to reset itself

A write of the timer control register arms a trigger in the chip, and when the trigger fires the
chip leaves the bus and loses the marker that RESET_DEVICE has set in its COMMAND register. POST_RESET
lifts the restriction when it no longer finds the marker. A trigger that is armed while the marker
stands therefore fires before the restriction is lifted; one that is armed where an earlier one
has taken the marker away does not.
-/

set_option autoImplicit false

namespace TtWind

open TtWind.Effect TtWind.Effect.Prog

/-- What the chip has to do with a reset: whether it answers on the bus, whether it has not fired
since the last trigger write it took, and whether the parity bit of its COMMAND register is set. -/
structure Chip where
  onBus : Bool := true
  armed : Bool := false
  marker : Bool := false
  deriving DecidableEq

/-- The parity bit in a COMMAND register's low byte. -/
def commandParity (b : UInt8) : Bool := b.toNat.testBit 6

/-- The low byte of the COMMAND register in a transfer from an offset, if it gets there. -/
def commandByte (off : Nat) (data : List UInt8) : Option UInt8 :=
  if off ≤ pciCfgCommand then data[pciCfgCommand - off]? else none

/-- Off the bus a read is all ones. -/
def Chip.reads (g : Chip) (off : Nat) (data : List UInt8) : Bool :=
  if g.onBus then (commandByte off data).all fun b => commandParity b == g.marker else data.all (· == 0xFF)

/-- A write of `n` bytes that the chip takes, if it is there. -/
def Chip.writes (g : Chip) (off : Nat) (data : List UInt8) (n : Nat) : Chip :=
  if g.onBus then
    { g with
      armed := g.armed || off == ifcTimerControlOff
      marker := ((commandByte off (data.take n)).map commandParity).getD g.marker }
  else g

/-- The trigger fires. -/
def Chip.fires (g : Chip) : Option Chip :=
  if g.armed then some { onBus := false, armed := false, marker := false } else none

/-- The chip, which fires when it likes, and drops off the bus or comes back when it likes. -/
def chip : Observer DriverSig Tid World Chip where
  initial _ g := g.armed = false
  agrees
    | _, .getBusData off _, data, _, g => g.reads off data
    | _, _, _, _, _ => true
  note
    | _, .setBusData off data, n, _, g => g.writes off data n
    | _, _, _, _, g => g
  drift
    | 0, g => g.fires
    | _, g => some { g with onBus := !g.onBus }

/-! ## The marker in a register -/

theorem word16_toNat (data : List UInt8) :
    (word16 data).toNat = (data.getD 0 0).toNat + 256 * (data.getD 1 0).toNat := by
  have hlow := (data.getD 0 0).toNat_lt
  have hhigh := (data.getD 1 0).toNat_lt
  have hle : leNat (fun i => data.getD i 0) 0 2 = (data.getD 0 0).toNat + 256 * (data.getD 1 0).toNat := by
    simp [leNat]
  rw [word16, hle, UInt16.toNat_ofNat']
  omega

theorem parity_eq_zero_iff (v : UInt16) : v &&& pciCmdParity = 0 ↔ v.toNat.testBit 6 = false := by
  have hmask : (v &&& pciCmdParity).toNat = v.toNat &&& 2 ^ 6 := UInt16.toNat_and _ _
  have hzero : v &&& pciCmdParity = 0 ↔ (v &&& pciCmdParity).toNat = 0 := UInt16.toNat_inj.symm
  rw [hzero, hmask]
  constructor
  · intro h
    have hbit : (v.toNat &&& 2 ^ 6).testBit 6 = v.toNat.testBit 6 := by
      rw [Nat.testBit_and, Nat.testBit_two_pow_self, Bool.and_true]
    rw [← hbit, h]
    rfl
  · intro h
    refine Nat.eq_of_testBit_eq fun i => ?_
    rw [Nat.testBit_and, Nat.testBit_two_pow, Nat.zero_testBit]
    by_cases hi : 6 = i
    · subst hi
      rw [h, Bool.false_and]
    · rw [decide_eq_false hi, Bool.and_false]

/-- The marker is a bit of the low byte. -/
theorem word16_parity (data : List UInt8) :
    word16 data &&& pciCmdParity = 0 ↔ commandParity (data.getD 0 0) = false := by
  rw [parity_eq_zero_iff, word16_toNat, commandParity, Nat.testBit_eq_decide_div_mod_eq, Nat.testBit_eq_decide_div_mod_eq,
    decide_eq_false_iff_not, decide_eq_false_iff_not]
  omega

/-- The marker is set in what RESET_DEVICE writes. -/
theorem commandParity_marked (v : UInt16) :
    commandParity (UInt8.ofNat (v ||| pciCmdParity).toNat) = true := by
  have hor : (v ||| pciCmdParity).toNat = v.toNat ||| 2 ^ 6 := UInt16.toNat_or _ _
  have hbit : (v.toNat ||| 2 ^ 6).testBit 6 = true := by
    rw [Nat.testBit_or, Nat.testBit_two_pow_self, Bool.or_true]
  rw [commandParity, hor, UInt8.toNat_ofNat', Nat.testBit_mod_two_pow, hbit]
  rfl

/-! ## How far a request has got -/

/-- What the operations of a request show: nothing, that the device is restricted, or that no trigger
is armed. -/
inductive Recovery where
  | unknown
  | restricted
  | fired
  deriving DecidableEq

open Classical in
/-- One event further: a COMMAND register without the marker shows that the chip has fired. -/
noncomputable def Recovery.next : Event → Recovery → Recovery
  | ⟨.getBusData off len, data⟩, s =>
    if off = pciCfgCommand ∧ len = 2 ∧ data.length = 2 ∧ word16 data &&& pciCmdParity = 0 then .fired else s
  | ⟨.store f, _⟩, s =>
    if ∀ c, (f c).needsHwInit = true then .restricted
    else if ∀ c, (f c).needsHwInit = c.needsHwInit then s else .unknown
  | _, s => s

/-- The restriction is lifted, and the marker taken back, only once the chip has fired; the trigger is
written only once the device is restricted. -/
def Recovery.allows (s : Recovery) : Op → Prop
  | .store f => (∀ c, (f c).needsHwInit = c.needsHwInit) ∨ (∀ c, (f c).needsHwInit = true) ∨ s = .fired
  | .setBusData off data =>
    if off = ifcTimerControlOff then s = .restricted
    else s = .fired ∨ ∀ n b, commandByte off (data.take n) = some b → commandParity b = true
  | _ => True

theorem Recovery.allows_of_spares (s : Recovery) {o : Op} (h : o.SparesReset) : s.allows o := by
  cases o with
  | store f => exact .inl fun c => by rw [h c]
  | setBusData => exact h.elim
  | _ => trivial

/-- Operations that tell the automaton nothing. -/
def Op.Silent : Op → Prop
  | .load | .mmioRead _ _ | .mmioWrite _ _ _ => True
  | _ => False

theorem Op.Silent.allows {o : Op} (h : o.Silent) (s : Recovery) : s.allows o := by
  cases o with
  | store => exact h.elim
  | setBusData => exact h.elim
  | _ => trivial

theorem Op.Silent.next {o : Op} (h : o.Silent) (x : o.Ans) (s : Recovery) : s.next ⟨o, x⟩ = s := by
  cases o <;> first | rfl | exact h.elim

theorem commandByte_of_above {off : Nat} {data : List UInt8} (h : pciCfgCommand < off) :
    commandByte off data = none := if_neg (Nat.not_le.mpr h)

section Walk

variable {α : Type} {s : Recovery}

abbrev Recovers (s : Recovery) (p : Drv α) (Q : Recovery → α → Prop) : Prop :=
  p.Follows (S := DriverSig) Recovery.allows Recovery.next Q s

theorem complies_of_spares {p : Drv α} (hp : p.Only Op.SparesReset) : Complies Recovery.allows Recovery.next p :=
  complies_of_only (fun s _ ho => s.allows_of_spares ho) hp

/-- A write that is not the trigger's. -/
theorem allows_write {off : Nat} {data : List UInt8} (hoff : off ≠ ifcTimerControlOff)
    (h : s = .fired ∨ ∀ n b, commandByte off (data.take n) = some b → commandParity b = true) :
    s.allows (.setBusData off data) := by
  show if off = ifcTimerControlOff then _ else _
  rw [if_neg hoff]
  exact h

theorem allows_trigger {off : Nat} {data : List UInt8} (hoff : off = ifcTimerControlOff) (h : s = .restricted) :
    s.allows (.setBusData off data) := by
  show if off = ifcTimerControlOff then _ else _
  rw [if_pos hoff]
  exact h

/-- A write above the COMMAND register. -/
theorem allows_elsewhere (s : Recovery) {off : Nat} (data : List UInt8) (hoff : off ≠ ifcTimerControlOff)
    (habove : pciCfgCommand < off) : s.allows (.setBusData off data) := by
  refine allows_write hoff (.inr fun n b hb => ?_)
  rw [commandByte_of_above habove] at hb
  cases hb

theorem next_readsOther (s : Recovery) {off len : Nat} (data : List UInt8) (hoff : off ≠ pciCfgCommand) :
    Recovery.next ⟨.getBusData off len, data⟩ s = s := if_neg fun h => hoff h.1

theorem next_setsNeeds (s : Recovery) {f : DeviceContext → DeviceContext} (hf : ∀ c, (f c).needsHwInit = true) :
    Recovery.next ⟨.store f, ()⟩ s = .restricted := if_pos hf

theorem next_keepsNeeds (s : Recovery) {f : DeviceContext → DeviceContext}
    (hf : ∀ c, (f c).needsHwInit = c.needsHwInit) : Recovery.next ⟨.store f, ()⟩ s = s := by
  have hnot : ¬ ∀ c, (f c).needsHwInit = true := fun h => absurd ((hf {}).symm.trans (h {})) (by decide)
  exact (if_neg hnot).trans (if_pos hf)

theorem saveConfigOnce_complies : Complies Recovery.allows Recovery.next saveConfigOnce := by
  refine fun s => ⟨trivial, fun c => Follows.ite (fun _ => trivial) fun _ => ⟨trivial, fun data => ?_⟩⟩
  refine ⟨.inl fun _ => rfl, fun _ => Follows.ite (fun _ => trivial) fun _ => ?_⟩
  exact ⟨.inl fun _ => rfl, fun _ => trivial⟩

theorem armReset_complies (fileObject : Option FileObject) :
    Complies Recovery.allows Recovery.next (armReset fileObject) := by
  refine (complies_of_spares (devicePresent_only fun _ ho => sparesReset_of_plain ho.plain)).bind fun _ => Complies.ite (fun _ => trivial) ?_
  refine saveConfigOnce_complies.bind fun _ => Complies.ite (fun _ => trivial) fun s => ⟨trivial, fun data => ?_⟩
  refine Follows.ite (fun _ => trivial) fun _ => ⟨?_, fun n => ?_⟩
  · refine allows_write (by decide) (.inr fun n b hb => ?_)
    cases n with
    | zero => cases hb
    | succ n =>
      obtain rfl := Option.some.inj hb
      exact commandParity_marked _
  refine Follows.ite (fun _ => trivial) fun _ => ?_
  refine ⟨trivial, fun _ => (complies_of_spares (carryForward_only trivial (fun _ _ => trivial) fileObject) _).bind fun s _ _ => ?_⟩
  refine ⟨.inr (.inl fun _ => rfl), fun _ => ⟨.inl fun _ => rfl, fun _ => ⟨?_, fun _ => ⟨?_, fun _ => trivial⟩⟩⟩⟩
  · exact allows_elsewhere _ _ (by decide) (by decide)
  · -- the trigger
    have hrestricted : ∀ s, Recovery.next ⟨.store fun c => { c with needsHwInit := true }, ()⟩ s = .restricted :=
      fun s => next_setsNeeds s fun _ => rfl
    have hkept : ∀ s, Recovery.next ⟨.store fun c => { c with sysmemVerified := false }, ()⟩ s = s :=
      fun s => next_keepsNeeds s fun _ => rfl
    exact allows_trigger rfl ((hkept _).trans (hrestricted _))

/-- Once the chip has fired, its config is restored. -/
theorem resetRestoreConfig_recovers (saved : Nat → UInt8) :
    Recovers .fired (resetRestoreConfig saved) fun s _ => s = .fired := by
  have hbelow : (resetRestoreConfig saved).Only fun o : Op =>
      ∃ off data, off ≠ ifcTimerControlOff ∧ o = .setBusData off data :=
    resetRestoreConfig_only (fun off hoff data => ⟨off, data, Nat.ne_of_lt (Nat.lt_trans hoff (by decide)), rfl⟩) saved
  refine hbelow.follows ?_ ?_
  · rintro o ⟨off, data, hoff, rfl⟩
    exact allows_write hoff (.inl rfl)
  · rintro o x ⟨off, data, -, rfl⟩
    rfl

theorem recoverReset_complies : Complies Recovery.allows Recovery.next recoverReset := by
  have hload : ∀ {β : Type} {k : DeviceContext → Drv β}, (∀ c, Complies Recovery.allows Recovery.next (k c)) →
      Complies Recovery.allows Recovery.next (load >>= k) := fun hk s => ⟨trivial, fun c => hk c _⟩
  refine hload fun _ => Complies.ite (fun _ => trivial) (hload fun _ => Complies.ite (fun _ => trivial) ?_)
  refine (complies_of_spares (devicePresent_only fun _ ho => sparesReset_of_plain ho.plain)).bind fun _ => Complies.ite (fun _ => trivial) ?_
  refine fun s => ⟨trivial, fun data => Follows.ite (fun _ => trivial) fun hfull => Follows.ite (fun _ => trivial) fun hclear => ?_⟩
  have hfired : Recovery.next ⟨.getBusData pciCfgCommand 2, data⟩ s = .fired :=
    if_pos ⟨rfl, rfl, by simpa using hfull, by simpa using hclear⟩
  rw [hfired]
  refine ⟨trivial, fun c => (resetRestoreConfig_recovers c.savedConfig).bind fun s ok hs => ?_⟩
  subst hs
  refine Follows.ite (fun _ => trivial) fun _ => ⟨trivial, fun data => ⟨.inl fun _ => rfl, fun _ => ?_⟩⟩
  have hsaved : Recovery.next ⟨.store fun c => c.saveConfig data, ()⟩
      (Recovery.next ⟨.getBusData 0 pciCfgSaveBytes, data⟩ .fired) = .fired :=
    (next_keepsNeeds _ fun _ => rfl).trans (next_readsOther _ _ (by decide))
  have hgate : kernelTlbSanityCheck.Only Op.Silent :=
    kernelTlbSanityCheck_within trivial fun _ _ _ _ => ⟨trivial, fun _ => trivial⟩
  have hsilent := hgate.follows (s := Recovery.fired) (fun o ho => ho.allows .fired) fun o x ho => ho.next x .fired
  rw [hsaved]
  refine hsilent.bind fun s status hs => Follows.ite (fun _ => trivial) fun _ => ?_
  exact ⟨.inr (.inr hs), fun _ => trivial⟩

end Walk

/-! ## The account -/

/-- The trigger is written while the chip, if it is on the bus, still holds the marker. -/
def markerStands (_ : Tid) (o : Op) (x : World × Chip) : Prop :=
  match o with
  | .setBusData off _ => off = ifcTimerControlOff → x.2.onBus = true → x.2.marker = true
  | _ => True

/-- An armed trigger has the marker and the restriction. -/
structure Chip.Guarded (s : Recovery) (c : DeviceContext) (g : Chip) : Prop where
  armed : g.armed = true → g.marker = true ∧ c.needsHwInit = true
  restricted : s = .restricted → c.needsHwInit = true
  fired : s = .fired → g.armed = false

noncomputable def triggers : Account Chip Recovery where
  log := chip
  allow := markerStands
  start := .unknown
  next := Recovery.next
  allows := Recovery.allows
  inv s c g := g.Guarded s c

namespace Chip.Guarded

variable {s s' : Recovery} {c c' : DeviceContext} {g : Chip}

theorem congr (h : g.Guarded s c) (hneeds : c'.needsHwInit = c.needsHwInit) : g.Guarded s c' := by
  refine ⟨fun ha => ?_, fun hs => ?_, h.fired⟩
  · rw [hneeds]
    exact h.armed ha
  · rw [hneeds]
    exact h.restricted hs

/-- A COMMAND register without the marker is the chip's own. -/
theorem reads {off len : Nat} {data : List UInt8} (h : g.Guarded s c) (hagrees : g.reads off data = true) :
    g.Guarded (Recovery.next ⟨.getBusData off len, data⟩ s) c := by
  simp only [Recovery.next]
  split
  · rename_i hclear
    obtain ⟨rfl, rfl, hlen, hclear⟩ := hclear
    have hbyte : commandByte pciCfgCommand data = some (data.getD 0 0) := by
      obtain ⟨b, b', rfl⟩ := List.length_eq_two.mp hlen
      rfl
    have hparity := (word16_parity data).mp hclear
    refine ⟨h.armed, nofun, fun _ => ?_⟩
    unfold Chip.reads at hagrees
    split at hagrees
    · simp only [hbyte, Option.all_some, hparity, beq_iff_eq] at hagrees
      by_contra harmed
      rw [(h.armed (by simpa using harmed)).1] at hagrees
      cases hagrees
    · -- off the bus the register reads with the marker
      obtain ⟨b, b', rfl⟩ := List.length_eq_two.mp hlen
      simp only [List.all_cons, Bool.and_eq_true, beq_iff_eq] at hagrees
      obtain rfl : b = 0xFF := hagrees.1
      exact absurd (show commandParity 0xFF = false from hparity) (by decide)
  · exact h

theorem writes {off n : Nat} {data : List UInt8} (h : g.Guarded s c) (ha : s.allows (.setBusData off data))
    (hstands : off = ifcTimerControlOff → g.onBus = true → g.marker = true) :
    (g.writes off data n).Guarded s c := by
  unfold Chip.writes
  split
  · rename_i hbus
    by_cases hoff : off = ifcTimerControlOff
    · have ha : s = .restricted := by
        have ha : if off = ifcTimerControlOff then s = .restricted else _ := ha
        rwa [if_pos hoff] at ha
      have hnone : commandByte off (data.take n) = none := commandByte_of_above (by rw [hoff]; decide)
      refine ⟨fun _ => ?_, h.restricted, fun hs => ?_⟩
      · rw [hnone]
        exact ⟨hstands hoff hbus, h.restricted ha⟩
      · rw [ha] at hs
        cases hs
    · have ha : s = .fired ∨ ∀ n b, commandByte off (data.take n) = some b → commandParity b = true := by
        have ha : if off = ifcTimerControlOff then s = .restricted else _ := ha
        rwa [if_neg hoff] at ha
      have harmed : (g.armed || off == ifcTimerControlOff) = g.armed := by simp [hoff]
      refine ⟨fun hg => ?_, h.restricted, fun hs => harmed.trans (h.fired hs)⟩
      have hg : g.armed = true := harmed.symm.trans hg
      obtain ⟨hmarker, hneeds⟩ := h.armed hg
      refine ⟨?_, hneeds⟩
      rcases ha with hs | ha
      · rw [h.fired hs] at hg
        cases hg
      · cases hb : commandByte off (data.take n) with
        | none => exact hmarker
        | some b => exact ha n b hb
  · exact h

theorem fires {g' : Chip} (h : g.Guarded s c) (hfires : g.fires = some g') : g'.Guarded s c := by
  unfold Chip.fires at hfires
  split at hfires
  · obtain rfl := Option.some.inj hfires
    exact ⟨nofun, h.restricted, fun _ => rfl⟩
  · cases hfires

theorem stores {f : DeviceContext → DeviceContext} (h : g.Guarded s c) (ha : s.allows (.store f)) :
    g.Guarded (Recovery.next ⟨.store f, ()⟩ s) (f c) := by
  have ha : (∀ c, (f c).needsHwInit = c.needsHwInit) ∨ (∀ c, (f c).needsHwInit = true) ∨ s = .fired := ha
  rcases ha with hkeeps | hsets | hs
  · rw [next_keepsNeeds s hkeeps]
    exact h.congr (hkeeps c)
  · rw [next_setsNeeds s hsets]
    exact ⟨fun harmed => ⟨(h.armed harmed).1, hsets c⟩, fun _ => hsets c, nofun⟩
  · have hdisarmed := h.fired hs
    refine ⟨fun harmed => ?_, fun hrestricted => ?_, fun _ => hdisarmed⟩
    · rw [hdisarmed] at harmed
      cases harmed
    · by_cases hsets : ∀ c, (f c).needsHwInit = true
      · exact hsets c
      · have hnext : Recovery.next ⟨.store f, ()⟩ s ≠ .restricted := by
          simp only [Recovery.next, if_neg hsets, hs]
          split <;> nofun
        exact absurd hrestricted hnext

end Chip.Guarded

theorem triggers_argued : triggers.Argued where
  initial x hx := by
    have hdisarmed : x.2.armed = false := hx.2
    refine ⟨fun h => ?_, nofun, nofun⟩
    rw [hdisarmed] at h
    cases h
  again s c g h := ⟨h.armed, nofun, nofun⟩
  follows fileObject code :=
    evtIoDeviceControl_complies (fun s _ => s.allows_of_spares) armReset_complies recoverReset_complies fileObject code _
  own {s o a e x y} hallows hstands he h := by
    obtain ⟨hexec, hagrees, hnote⟩ := watched_exec he
    have hctx := (World.exec_frame hexec).ctx
    have h : x.2.Guarded s x.1.ctx := h
    show y.2.Guarded (Recovery.next ⟨o, a⟩ s) y.1.ctx
    rw [hnote, hctx]
    cases o with
    | store f => exact h.stores hallows
    | getBusData off len => exact h.reads hagrees
    | setBusData off data => exact h.writes hallows hstands
    | locked sec => exact h.congr (by rw [Op.effect, Section.run_frame x.1.ctx sec])
    | _ => exact h
  other {s t o a e x y} ht hplaced he h := by
    obtain ⟨hexec, -, hnote⟩ := watched_exec he
    have h : x.2.Guarded s x.1.ctx := h
    have hneeds := hplaced.needs ht hexec
    show y.2.Guarded s y.1.ctx
    rw [hnote]
    cases o with
    | setBusData off data => exact absurd hplaced.1 ht
    | _ => exact h.congr hneeds
  drift {s c g g' n} hd h := by
    cases n with
    | zero => exact Chip.Guarded.fires h hd
    | succ n =>
      obtain rfl := Option.some.inj hd
      exact ⟨h.armed, h.restricted, h.fired⟩

/-- In every run in which the marker stands wherever the trigger is written, no trigger is armed
while no reset is in flight: when POST_RESET lifts the restriction, the chip has fired. -/
theorem no_trigger_left {c : WatchedConfig Chip} (h : Reach (driver.observe chip) markerStands c)
    (hneeds : c.world.1.ctx.needsHwInit = false) : c.world.2.armed = false := by
  have hguarded := triggers_argued.reach h
  by_contra harmed
  rw [(hguarded.armed (by simpa using harmed)).2] at hneeds
  cases hneeds

def markerStandsTest (_ : Tid) (o : Op) (x : World × Chip) : Bool :=
  match o with
  | .setBusData off _ => !(off == ifcTimerControlOff) || !x.2.onBus || x.2.marker
  | _ => true

theorem markerStandsTest_implies (t : Tid) (o : Op) (x : World × Chip) (h : markerStandsTest t o x = true) :
    markerStands t o x := by
  cases o with
  | setBusData off data =>
    intro hoff hbus
    simpa [markerStandsTest, hoff, hbus] using h
  | _ => trivial

/-- The trigger is written and RESET_DEVICE ends; the chip fires, and comes back. -/
def firesReset : List WatchedMove := [.driver (.ops .ioctl ([.count 4] ++ plainOps 2)), .drift 0, .drift 1]

/-- A card that has been reset and recovered has no trigger left. -/
theorem no_trigger_left_recovered : ∃ c : WatchedConfig Chip, Reach (driver.observe chip) markerStands c ∧
    c.world.1.ctx.resetGeneration = 1 ∧ c.world.1.ctx.needsHwInit = false ∧ c.world.2.armed = false := by
  have hplay : (WatchedConfig.play chip markerStandsTest
      ((cardArrives 0x10000000 ++ opens 2 2 ++ armsReset).map .driver ++ firesReset ++ recoversReset.map .driver)
      (idle.watched {})).any (fun c => c.world.1.ctx.resetGeneration == 1 && !c.world.1.ctx.needsHwInit) = true := by
    decide +kernel
  obtain ⟨c, hreach, hend⟩ := WatchedConfig.exists_reach markerStandsTest_implies (show chip.initial {} {} from rfl) hplay
  simp only [Bool.and_eq_true, beq_iff_eq, Bool.not_eq_true'] at hend
  exact ⟨c, hreach, hend.1, hend.2, no_trigger_left hreach hend.2⟩

/-- RESET_DEVICE once more, with the first trigger still armed: it fires between the marker and the trigger. -/
def rearmsReset : List WatchedMove :=
  [.driver (.ops .ioctl ([.count 4] ++ plainOps 2)), .driver (.ends .ioctl),
    .driver (.ioctl { fileObject := some 2, requestor := some 2, inLen := 8 } .resetDevice 2),
    .driver (.ops .ioctl (plainOps 9 ++ [.bytes [0x52, 0x1E]] ++ plainOps 2 ++ [.bytes [0x40, 0], .count 2])),
    .drift 0, .drift 1, .driver (.ops .ioctl (plainOps 5 ++ [.count 4, .count 4] ++ plainOps 2))]

/-- The restriction is lifted with a trigger armed. -/
theorem trigger_left : ¬ ∀ c : WatchedConfig Chip, Reach (driver.observe chip) anyStep c →
    c.world.1.ctx.needsHwInit = false → c.world.2.armed = false := by
  intro hall
  have hplay : (WatchedConfig.play chip (fun _ _ _ => true)
      ((cardArrives 0x10000000 ++ opens 2 2 ++ armsReset).map .driver ++ rearmsReset ++ recoversReset.map .driver)
      (idle.watched {})).any (fun c => !c.world.1.ctx.needsHwInit && c.world.2.armed) = true := by decide +kernel
  obtain ⟨c, hreach, hend⟩ :=
    WatchedConfig.exists_reach (fun _ _ _ _ => trivial) (show chip.initial {} {} from rfl) hplay
  simp only [Bool.and_eq_true, Bool.not_eq_true'] at hend
  have hdisarmed := hall c hreach hend.1
  rw [hend.2] at hdisarmed
  cases hdisarmed

end TtWind
