import TtWind.Laws.Account
import TtWind.Laws.Refusal

/-!
# The saved config of a restricted device

RESET_DEVICE saves config space before it restricts the device, and no more while the device is
restricted. POST_RESET saves it once more between its restore and its register check, straight over
the first image: a check that fails leaves the device restricted with whatever the bus has
transferred. As long as that agrees with the first image, so does the saved config.
-/

set_option autoImplicit false

namespace TtWind

open TtWind.Effect TtWind.Effect.Prog

/-- The physical addresses that PrepareHardware has recorded, in the order of the BARs. -/
def DeviceContext.assigned (c : DeviceContext) : List UInt64 := (List.range c.barCount).map fun i => (c.bars i).phys

/-- The image that RESET_DEVICE has captured, the addresses assigned to the BARs then, and what the
last read of the whole config space has transferred. -/
structure Images where
  captured : List UInt8 := []
  assigned : List UInt64 := []
  transferred : List UInt8 := []
  deriving DecidableEq

/-- What is noted of a read of the whole config space: a full one, of a device that is not restricted,
captures the image. -/
def Images.reads (g : Images) (c : DeviceContext) (data : List UInt8) : Images :=
  if c.needsHwInit = false ∧ data.length = pciCfgSaveBytes then ⟨data, c.assigned, data⟩
  else { g with transferred := data }

/-- The reads of the whole config space by the requests are noted. -/
def imageLog : Observer DriverSig Tid World Images where
  initial _ g := g = {}
  note
    | .ioctl, .getBusData off len, data, w, g =>
      if off = 0 ∧ len = pciCfgSaveBytes then g.reads w.ctx data else g
    | _, _, _, _, g => g

/-- Two bytes agree in the bits of a mask. -/
def SameBits (mask a b : UInt8) : Prop := a &&& mask = b &&& mask

instance (mask a b : UInt8) : Decidable (SameBits mask a b) := inferInstanceAs (Decidable (_ = _))

/-- The saved config is the captured image, in the bits of a mask for each byte. -/
def DeviceContext.Holds (c : DeviceContext) (mask : Nat → UInt8) (image : List UInt8) : Prop :=
  ∀ i < pciCfgSaveBytes, SameBits (mask i) (c.savedConfig i) (image.getD i 0)

/-- What has been transferred agrees with the captured image, in those bits. -/
def Images.Agree (g : Images) (mask : Nat → UInt8) : Prop :=
  ∀ i < g.transferred.length, SameBits (mask i) (g.transferred.getD i 0) (g.captured.getD i 0)

instance (g : Images) (mask : Nat → UInt8) : Decidable (g.Agree mask) := inferInstanceAs (Decidable (∀ i < _, _))

/-! ## How far a request has got -/

/-- What the operations of a request show: nothing, that the device is not restricted and what has
then been read, that the image is saved, or that the device is restricted and what has then been read. -/
inductive Saving where
  | unknown
  | fresh
  | read (data : List UInt8)
  | saved
  | rearm
  | reread (data : List UInt8)

/-- The store leaves the saved config and the restriction. -/
def LeavesSave (f : DeviceContext → DeviceContext) : Prop :=
  ∀ c, (f c).savedConfig = c.savedConfig ∧ (f c).needsHwInit = c.needsHwInit

namespace Saving

/-- What a load shows. -/
def loaded (restricted : Bool) : Saving → Saving
  | .saved => .saved
  | .rearm => .rearm
  | _ => if restricted then .rearm else .fresh

/-- What a read of the whole config space shows. -/
def reads (data : List UInt8) : Saving → Saving
  | .fresh | .read _ | .saved => .read data
  | .rearm | .reread _ => .reread data
  | .unknown => .unknown

open Classical in
/-- What a store makes of it that does not save what has been read. -/
noncomputable def stored (f : DeviceContext → DeviceContext) (s : Saving) : Saving :=
  if ∀ c, (f c).needsHwInit = true then .rearm else if LeavesSave f then s else .unknown

open Classical in
/-- One event further. -/
noncomputable def next : Event → Saving → Saving
  | ⟨.load, c⟩, s => s.loaded c.needsHwInit
  | ⟨.getBusData off len, data⟩, s => if off = 0 ∧ len = pciCfgSaveBytes then s.reads data else s
  | ⟨.store f, _⟩, .read data =>
    if f = fun c => c.saveConfig data then
      if data.length = pciCfgSaveBytes then .saved else .unknown
    else stored f (.read data)
  | ⟨.store f, _⟩, .reread data => if f = fun c => c.saveConfig data then .rearm else stored f (.reread data)
  | ⟨.store f, _⟩, s => s.stored f
  | _, s => s

/-- What has been read may be saved; the device is restricted when the image is saved, or again. -/
def allows (s : Saving) : Op → Prop
  | .store f => LeavesSave f ∨
      (∃ data, (s = .read data ∨ s = .reread data) ∧ f = fun c => c.saveConfig data) ∨
      (∀ c, (f c).savedConfig = c.savedConfig) ∧
        ((∀ c, (f c).needsHwInit = true) ∧ (s = .saved ∨ s = .rearm) ∨ ∀ c, (f c).needsHwInit = false)
  | _ => True

theorem allows_of_spares (s : Saving) {o : Op} (h : o.SparesReset) : s.allows o := by
  cases o with
  | store f => exact .inl fun c => by rw [h c]; exact ⟨rfl, rfl⟩
  | setBusData => exact h.elim
  | _ => trivial

theorem next_readsOther (s : Saving) {off len : Nat} (data : List UInt8) (h : len ≠ pciCfgSaveBytes) :
    next ⟨.getBusData off len, data⟩ s = s := if_neg fun hn => h hn.2

theorem next_readsAll (s : Saving) {off len : Nat} (data : List UInt8) (hoff : off = 0) (h : len = pciCfgSaveBytes) :
    next ⟨.getBusData off len, data⟩ s = s.reads data := if_pos ⟨hoff, h⟩

theorem stored_leaves {f : DeviceContext → DeviceContext} (h : LeavesSave f) (s : Saving) : stored f s = s := by
  have hnot : ¬ ∀ c, (f c).needsHwInit = true := fun hall => absurd ((h {}).2.symm.trans (hall {})) (by decide)
  exact (if_neg hnot).trans (if_pos h)

theorem stored_restricts {f : DeviceContext → DeviceContext} (h : ∀ c, (f c).needsHwInit = true) (s : Saving) :
    stored f s = .rearm := if_pos h

theorem next_saves {data : List UInt8} (hfull : data.length = pciCfgSaveBytes) :
    next ⟨.store fun c => c.saveConfig data, ()⟩ (.read data) = .saved := (if_pos rfl).trans (if_pos hfull)

end Saving

section Walk

variable {α : Type} {s : Saving}

abbrev Saves (s : Saving) (p : Drv α) (Q : Saving → α → Prop) : Prop :=
  p.Follows (S := DriverSig) Saving.allows Saving.next Q s

/-- Operations that show nothing to a request that has saved its image or finds the device restricted. -/
def Op.Unsaving : Op → Prop
  | .getBusData _ len => len ≠ pciCfgSaveBytes
  | .store _ => False
  | _ => True

theorem Op.Unsaving.next {o : Op} (h : o.Unsaving) (hs : s = .saved ∨ s = .rearm) (x : o.Ans) :
    s.next ⟨o, x⟩ = s := by
  cases o with
  | load => rcases hs with rfl | rfl <;> rfl
  | store => exact h.elim
  | getBusData => exact Saving.next_readsOther s x h
  | _ => rfl

theorem Op.Unsaving.allows {o : Op} (h : o.Unsaving) (s : Saving) : s.allows o := by
  cases o with
  | store => exact h.elim
  | _ => trivial

/-- What keeps to those leaves the state. -/
theorem saves_of_unsaving {p : Drv α} (hp : p.Only Op.Unsaving) (hs : s = .saved ∨ s = .rearm) :
    Saves s p fun s' _ => s' = s :=
  hp.follows (fun _ ho => ho.allows s) fun _ x ho => ho.next hs x

theorem complies_saving {p : Drv α} (hp : p.Only Op.SparesReset) : Complies Saving.allows Saving.next p :=
  complies_of_only (fun s _ ho => s.allows_of_spares ho) hp

/-- A load has shown whether the device is restricted. -/
theorem loaded_cases (s : Saving) (restricted : Bool) :
    s.loaded restricted = .saved ∨ s.loaded restricted = .rearm ∨ restricted = false ∧ s.loaded restricted = .fresh := by
  cases s <;> cases restricted <;> simp [Saving.loaded]

/-- What is read then is saved. -/
theorem reads_saves {k : Unit → Drv α} {Q : Saving → α → Prop} {data : List UInt8}
    (hs : s = .saved ∨ s = .rearm ∨ s = .fresh)
    (hk : ∀ s', (data.length = pciCfgSaveBytes → s' = .saved ∨ s' = .rearm) → Saves s' (k ()) Q) :
    Saves (s.reads data) (.vis (.store fun c => c.saveConfig data) k) Q := by
  refine ⟨.inr (.inl ⟨data, ?_, rfl⟩), fun _ => hk _ fun hfull => ?_⟩
  · rcases hs with rfl | rfl | rfl
    · exact .inl rfl
    · exact .inr rfl
    · exact .inl rfl
  · rcases hs with rfl | rfl | rfl
    · exact .inl (Saving.next_saves hfull)
    · exact .inr (if_pos rfl)
    · exact .inl (Saving.next_saves hfull)

theorem saveConfigOnce_saves :
    Saves s saveConfigOnce fun s status => status.ok = true → s = .saved ∨ s = .rearm := by
  refine ⟨trivial, fun c => ?_⟩
  have hnext : Saving.next ⟨.load, c⟩ s = s.loaded c.needsHwInit := rfl
  rw [hnext]
  have hcases := loaded_cases s c.needsHwInit
  refine Follows.ite (fun hneeds => follows_pure fun _ => ?_) fun _ => ⟨trivial, fun data => ?_⟩
  · rcases hcases with h | h | ⟨h, -⟩
    · exact .inl h
    · exact .inr h
    · exact absurd (hneeds.symm.trans h) (by decide)
  · rw [Saving.next_readsAll _ _ rfl rfl]
    refine reads_saves (hcases.imp_right (Or.imp_right And.right)) fun s' hs' => ?_
    refine Follows.ite (fun _ => follows_pure nofun) fun hfull => ⟨.inl fun _ => ⟨rfl, rfl⟩, fun _ => ?_⟩
    have hs' := hs' (by simpa using hfull)
    have hkept : Saving.next ⟨.store fun c => { c with savedConfigValid := true }, ()⟩ s' = s' := by
      rcases hs' with rfl | rfl
      · exact Saving.stored_leaves (fun _ => ⟨rfl, rfl⟩) _
      · exact Saving.stored_leaves (fun _ => ⟨rfl, rfl⟩) _
    rw [hkept]
    exact fun _ => hs'

theorem armReset_saves (fileObject : Option FileObject) : Complies Saving.allows Saving.next (armReset fileObject) := by
  have hpresent := devicePresent_only fun _ ho => sparesReset_of_plain ho.plain
  refine (complies_saving hpresent).bind fun _ => Complies.ite (fun _ => trivial) fun s => ?_
  refine saveConfigOnce_saves.bind fun s status hs => Follows.ite (fun _ => trivial) fun hok => ?_
  have hs := hs (by simpa using hok)
  have hread : (cfgRead pciCfgCommand 2).Only Op.Unsaving := ⟨nofun, fun _ _ => trivial⟩
  refine (saves_of_unsaving hread hs).bind fun s' r hs' => ?_
  subst hs'
  refine Follows.ite (fun _ => trivial) fun _ => ?_
  have hwrite : ∀ off data, (cfgWrite off data).Only Op.Unsaving := fun _ _ => ⟨trivial, fun _ _ => trivial⟩
  refine (saves_of_unsaving (hwrite _ _) hs).bind fun s' written hs' => ?_
  subst hs'
  refine Follows.ite (fun _ => trivial) fun _ => ?_
  have hcarry := carryForward_only (K := Op.Unsaving) trivial (fun _ _ => trivial) fileObject
  have hfence : (locked .fence).Only Op.Unsaving := ⟨trivial, fun _ _ => trivial⟩
  refine (saves_of_unsaving (hfence.bind fun _ => hcarry) hs).bind fun s' _ hs' => ?_
  subst hs'
  have hunverify : LeavesSave fun c => { c with sysmemVerified := false } := fun _ => ⟨rfl, rfl⟩
  refine ⟨.inr (.inr ⟨fun _ => rfl, .inl ⟨fun _ => rfl, hs⟩⟩), fun _ => ⟨.inl hunverify, fun _ => ?_⟩⟩
  exact ⟨trivial, fun _ => ⟨trivial, fun _ => trivial⟩⟩

theorem recoverReset_saves : Complies Saving.allows Saving.next recoverReset := by
  intro s
  refine ⟨trivial, fun c => Follows.ite (fun _ => trivial) fun hrestricted => ?_⟩
  have hs : s.loaded c.needsHwInit = .saved ∨ s.loaded c.needsHwInit = .rearm := by
    rcases loaded_cases s c.needsHwInit with h | h | ⟨h, -⟩
    · exact .inl h
    · exact .inr h
    · rw [h] at hrestricted
      exact absurd rfl hrestricted
  have hnext : Saving.next ⟨.load, c⟩ s = s.loaded c.needsHwInit := rfl
  rw [hnext]
  generalize s.loaded c.needsHwInit = s at hs
  have hload : (op .load).Only Op.Unsaving := ⟨trivial, fun _ _ => trivial⟩
  have hcommand : (cfgRead pciCfgCommand 2).Only Op.Unsaving := ⟨nofun, fun _ _ => trivial⟩
  have hpresent : devicePresent.Only Op.Unsaving := ⟨nofun, fun _ _ => ⟨trivial, fun _ _ => trivial⟩⟩
  refine (saves_of_unsaving hload hs).bind fun s' c hs' => ?_
  subst hs'
  refine Follows.ite (fun _ => trivial) fun _ => (saves_of_unsaving hpresent hs).bind fun s' _ hs' => ?_
  subst hs'
  refine Follows.ite (fun _ => trivial) fun _ => (saves_of_unsaving hcommand hs).bind fun s' r hs' => ?_
  subst hs'
  refine Follows.ite (fun _ => trivial) fun _ => Follows.ite (fun _ => trivial) fun _ => ?_
  refine (saves_of_unsaving hload hs).bind fun s' c hs' => ?_
  subst hs'
  have hrestore := resetRestoreConfig_only (K := Op.Unsaving) (fun _ _ _ => trivial) c.savedConfig
  refine (saves_of_unsaving hrestore hs).bind fun s' _ hs' => ?_
  subst hs'
  refine Follows.ite (fun _ => trivial) fun _ => ⟨trivial, fun data => ?_⟩
  rw [Saving.next_readsAll _ _ rfl rfl]
  refine reads_saves (hs.imp_right .inl) fun s' _ => ?_
  have hgate : kernelTlbSanityCheck.Only Op.SparesReset :=
    kernelTlbSanityCheck_within trivial fun _ _ _ _ => ⟨trivial, fun _ => trivial⟩
  refine (complies_saving hgate s').bind fun s' _ _ => Follows.ite (fun _ => trivial) fun _ => ?_
  exact ⟨.inr (.inr ⟨fun _ => rfl, .inr fun _ => rfl⟩), fun _ => follows_pure trivial⟩

end Walk

/-! ## The account -/

/-- Where a request of a restricted device overwrites the saved config, what has been transferred
agrees with the captured image. -/
def resavesAgree (mask : Nat → UInt8) (_ : Tid) (o : Op) (x : World × Images) : Prop :=
  match o with
  | .store f => x.1.ctx.needsHwInit = true → (f x.1.ctx).savedConfig ≠ x.1.ctx.savedConfig → x.2.Agree mask
  | _ => True

/-- What the operations of a request have shown is so. -/
def Saving.Shows (c : DeviceContext) (g : Images) : Saving → Prop
  | .unknown => True
  | .fresh => c.needsHwInit = false
  | .read data => c.needsHwInit = false ∧ (data.length = pciCfgSaveBytes → g.captured = data)
  | .saved => c.needsHwInit = false ∧ ∀ i < pciCfgSaveBytes, c.savedConfig i = g.captured.getD i 0
  | .rearm => c.needsHwInit = true
  | .reread data => c.needsHwInit = true ∧ g.transferred = data

/-- A restricted device holds the captured image. -/
structure Images.Sound (mask : Nat → UInt8) (s : Saving) (c : DeviceContext) (g : Images) : Prop where
  holds : c.needsHwInit = true → c.Holds mask g.captured
  shows : s.Shows c g

theorem Saving.Shows.congr {s : Saving} {c c' : DeviceContext} {g : Images} (h : s.Shows c g)
    (hsaved : c'.savedConfig = c.savedConfig) (hneeds : c'.needsHwInit = c.needsHwInit) : s.Shows c' g := by
  cases s <;> simp only [Shows, hsaved, hneeds] at h ⊢ <;> exact h

theorem Images.reads_transferred (g : Images) (c : DeviceContext) (data : List UInt8) :
    (g.reads c data).transferred = data := by
  unfold reads
  split <;> rfl

theorem Images.reads_restricted (g : Images) {c : DeviceContext} (data : List UInt8) (hn : c.needsHwInit = true) :
    (g.reads c data).captured = g.captured := by
  unfold reads
  rw [if_neg fun hopen => by simp [hn] at hopen]

theorem Images.reads_full (g : Images) {c : DeviceContext} {data : List UInt8} (hn : c.needsHwInit = false)
    (hfull : data.length = pciCfgSaveBytes) : (g.reads c data).captured = data := by
  unfold reads
  rw [if_pos ⟨hn, hfull⟩]

theorem imageLog_readsAll {off len : Nat} {data : List UInt8} {w : World} {g : Images} (hoff : off = 0)
    (hlen : len = pciCfgSaveBytes) :
    imageLog.note .ioctl (.getBusData off len) data w g = g.reads w.ctx data := if_pos ⟨hoff, hlen⟩

theorem imageLog_readsOther {off len : Nat} {data : List UInt8} {w : World} {g : Images}
    (h : ¬ (off = 0 ∧ len = pciCfgSaveBytes)) : imageLog.note .ioctl (.getBusData off len) data w g = g := if_neg h

namespace Images.Sound

variable {mask : Nat → UInt8} {s : Saving} {c c' : DeviceContext} {g : Images}

theorem congr (h : g.Sound mask s c) (hsaved : c'.savedConfig = c.savedConfig)
    (hneeds : c'.needsHwInit = c.needsHwInit) : g.Sound mask s c' := by
  refine ⟨fun hn i hi => ?_, h.shows.congr hsaved hneeds⟩
  rw [hsaved]
  rw [hneeds] at hn
  exact h.holds hn i hi

theorem load (h : g.Sound mask s c) : g.Sound mask (s.loaded c.needsHwInit) c := by
  refine ⟨h.holds, ?_⟩
  rcases loaded_cases s c.needsHwInit with hs | hs | ⟨hopen, hs⟩
  · rw [hs]
    cases s with
    | saved => exact h.shows
    | rearm => cases hs
    | _ => simp only [Saving.loaded] at hs; split at hs <;> cases hs
  · rw [hs]
    cases s with
    | saved => cases hs
    | rearm => exact h.shows
    | _ =>
      simp only [Saving.loaded] at hs
      split at hs
      · assumption
      · cases hs
  · rw [hs]
    exact hopen

theorem reads (h : g.Sound mask s c) (data : List UInt8) : (g.reads c data).Sound mask (s.reads data) c := by
  refine ⟨fun hn => ?_, ?_⟩
  · rw [g.reads_restricted data hn]
    exact h.holds hn
  · have hopen : c.needsHwInit = false → (Saving.read data).Shows c (g.reads c data) :=
      fun hn => ⟨hn, fun hfull => g.reads_full hn hfull⟩
    have hshows := h.shows
    cases s with
    | unknown => exact trivial
    | fresh => exact hopen hshows
    | read => exact hopen hshows.1
    | saved => exact hopen hshows.1
    | rearm => exact ⟨hshows, g.reads_transferred c data⟩
    | reread => exact ⟨hshows.1, g.reads_transferred c data⟩

/-- The save of what has been read. -/
theorem saves {data : List UInt8} (h : g.Sound mask s c) (hs : s = .read data ∨ s = .reread data)
    (hagree : c.needsHwInit = true → (c.saveConfig data).savedConfig ≠ c.savedConfig → g.Agree mask) :
    g.Sound mask (Saving.next ⟨.store fun c => c.saveConfig data, ()⟩ s) (c.saveConfig data) := by
  have hbyte : ∀ i < data.length, (c.saveConfig data).savedConfig i = data.getD i 0 := fun i hi => by
    simp [DeviceContext.saveConfig, hi]
  rcases hs with rfl | rfl
  · obtain ⟨hopen, hcaptured⟩ := h.shows
    by_cases hfull : data.length = pciCfgSaveBytes
    · rw [Saving.next_saves hfull]
      refine ⟨fun hn => ?_, hopen, fun i hi => ?_⟩
      · exact absurd (hopen.symm.trans hn) (by decide)
      · rw [hbyte i (hfull ▸ hi), hcaptured hfull]
    · have hnext : Saving.next ⟨.store fun c => c.saveConfig data, ()⟩ (.read data) = .unknown :=
        (if_pos rfl).trans (if_neg hfull)
      rw [hnext]
      exact ⟨fun hn => absurd (hopen.symm.trans hn) (by decide), trivial⟩
  · obtain ⟨hrestricted, htransferred⟩ := h.shows
    have hnext : Saving.next ⟨.store fun c => c.saveConfig data, ()⟩ (.reread data) = .rearm := if_pos rfl
    rw [hnext]
    refine ⟨fun _ => ?_, hrestricted⟩
    by_cases hsame : (c.saveConfig data).savedConfig = c.savedConfig
    · intro i hi
      rw [hsame]
      exact h.holds hrestricted i hi
    · have hagree := hagree hrestricted hsame
      intro i hi
      by_cases hlen : i < data.length
      · rw [hbyte i hlen, ← htransferred]
        exact hagree i (htransferred ▸ hlen)
      · have hkept : (c.saveConfig data).savedConfig i = c.savedConfig i := by
          simp [DeviceContext.saveConfig, Nat.not_lt.mp hlen]
        rw [hkept]
        exact h.holds hrestricted i hi

/-- The other stores. -/
theorem stores {f : DeviceContext → DeviceContext} (h : g.Sound mask s c) (ha : s.allows (.store f))
    (hother : ∀ data, s = .read data ∨ s = .reread data → f ≠ fun c => c.saveConfig data) :
    g.Sound mask (Saving.next ⟨.store f, ()⟩ s) (f c) := by
  have hnext : Saving.next ⟨.store f, ()⟩ s = s.stored f := by
    cases s with
    | read data => exact if_neg (hother data (.inl rfl))
    | reread data => exact if_neg (hother data (.inr rfl))
    | _ => rfl
  rw [hnext]
  rcases ha with hleaves | ⟨data, hs, hf⟩ | ⟨hsaved, ⟨hsets, hs⟩ | hlifts⟩
  · rw [Saving.stored_leaves hleaves]
    exact h.congr (hleaves c).1 (hleaves c).2
  · exact absurd hf (hother data hs)
  · rw [Saving.stored_restricts hsets]
    refine ⟨fun _ i hi => ?_, hsets c⟩
    rw [hsaved c]
    rcases hs with rfl | rfl
    · rw [h.shows.2 i hi]
      rfl
    · exact h.holds h.shows i hi
  · have hopen : (f c).needsHwInit = true → False := fun hn => absurd ((hlifts c).symm.trans hn) (by decide)
    refine ⟨fun hn => (hopen hn).elim, ?_⟩
    unfold Saving.stored
    split
    · rename_i hsets
      exact (hopen (hsets c)).elim
    · split
      · rename_i hleaves
        exact h.shows.congr (hleaves c).1 (hleaves c).2
      · exact trivial

end Images.Sound

noncomputable def saves (mask : Nat → UInt8) : Account Images Saving where
  log := imageLog
  allow := resavesAgree mask
  start := .unknown
  next := Saving.next
  allows := Saving.allows
  inv s c g := g.Sound mask s c

/-- Only a request saves the config. -/
theorem Placed.saved {t : Tid} {o : Op} {e : Choice} {a : o.Ans} {w w' : World} (h : Placed t o w)
    (ht : t ≠ .ioctl) (he : w.exec t o e = some (a, w')) : w'.ctx.savedConfig = w.ctx.savedConfig := by
  rw [(World.exec_frame he).ctx]
  cases o with
  | store f =>
    rcases h with ⟨-, -, hquiet | hunverify | ⟨hio, -⟩ | ⟨harc, -⟩⟩ | ⟨-, hhw⟩
    · show (f w.ctx).savedConfig = _
      rw [hquiet w.ctx]
    · rw [hunverify]
      rfl
    · exact absurd hio ht
    · show (f w.ctx).savedConfig = _
      rw [harc w.ctx]
    · show (f w.ctx).savedConfig = _
      rw [(hhw w.ctx).1]
  | locked s =>
    show (s.run w.ctx).2.savedConfig = _
    rw [Section.run_frame w.ctx s]
  | _ => rfl

theorem saves_argued (mask : Nat → UInt8) : (saves mask).Argued where
  initial x hx := by
    obtain ⟨⟨buffer, hbuffer⟩, -⟩ := hx
    refine ⟨fun hn => ?_, trivial⟩
    rw [hbuffer] at hn
    cases hn
  again s c g h := ⟨h.holds, trivial⟩
  follows fileObject code :=
    evtIoDeviceControl_complies (fun s _ => s.allows_of_spares) armReset_saves recoverReset_saves fileObject code _
  own {s o a e x y} hallows hagree he h := by
    obtain ⟨hexec, -, hnote⟩ := watched_exec he
    have hctx := (World.exec_frame hexec).ctx
    have h : x.2.Sound mask s x.1.ctx := h
    show y.2.Sound mask (Saving.next ⟨o, a⟩ s) y.1.ctx
    rw [hnote, hctx]
    cases o with
    | load =>
      obtain ⟨w₁, hs, -⟩ := World.exec_step hexec
      obtain ⟨rfl, -⟩ := Prod.mk.inj (Option.some.inj hs)
      exact h.load
    | store f =>
      by_cases hsave : ∃ data, (s = .read data ∨ s = .reread data) ∧ f = fun c => c.saveConfig data
      · obtain ⟨data, hs, rfl⟩ := hsave
        exact h.saves hs hagree
      · exact h.stores hallows fun data hs hf => hsave ⟨data, hs, hf⟩
    | getBusData off len =>
      by_cases hall : off = 0 ∧ len = pciCfgSaveBytes
      · obtain ⟨rfl, rfl⟩ := hall
        rw [Saving.next_readsAll _ _ rfl rfl]
        show (imageLog.note .ioctl (.getBusData 0 pciCfgSaveBytes) a x.1 x.2).Sound mask _ x.1.ctx
        rw [imageLog_readsAll rfl rfl]
        exact h.reads a
      · have hnext : Saving.next ⟨.getBusData off len, a⟩ s = s := if_neg hall
        show (imageLog.note .ioctl (.getBusData off len) a x.1 x.2).Sound mask _ x.1.ctx
        rw [hnext, imageLog_readsOther hall]
        exact h
    | locked sec =>
      refine h.congr ?_ ?_
      · rw [Op.effect, Section.run_frame x.1.ctx sec]
      · rw [Op.effect, Section.run_frame x.1.ctx sec]
    | _ => exact h
  other {s t o a e x y} ht hplaced he h := by
    obtain ⟨hexec, -, hnote⟩ := watched_exec he
    have h : x.2.Sound mask s x.1.ctx := h
    have hseen : y.2 = x.2 := by
      rw [hnote]
      cases t with
      | ioctl => exact absurd rfl ht
      | _ => rfl
    show y.2.Sound mask s y.1.ctx
    rw [hseen]
    exact h.congr (hplaced.saved ht hexec) (hplaced.needs ht hexec)
  drift hd _ := by cases hd

/-- In every run in which what POST_RESET's read back of the config transfers agrees with the
image that RESET_DEVICE captured, in the bits of the mask, the saved config of a restricted device
does. -/
theorem saved_config_good {mask : Nat → UInt8} {c : WatchedConfig Images}
    (h : Reach (driver.observe imageLog) (resavesAgree mask) c) (hneeds : c.world.1.ctx.needsHwInit = true) :
    c.world.1.ctx.Holds mask c.world.2.captured :=
  ((saves_argued mask).reach h).holds hneeds

/-- Everything that a restricted device's config read has transferred agrees, whatever is stored. -/
def resavesAgreeTest (mask : Nat → UInt8) (_ : Tid) (o : Op) (x : World × Images) : Bool :=
  match o with
  | .store _ => !x.1.ctx.needsHwInit || x.2.Agree mask
  | _ => true

theorem resavesAgreeTest_implies (mask : Nat → UInt8) (t : Tid) (o : Op) (x : World × Images)
    (h : resavesAgreeTest mask t o x = true) : resavesAgree mask t o x := by
  cases o with
  | store f =>
    intro hneeds _
    simpa [resavesAgreeTest, hneeds] using h
  | _ => trivial

/-- POST_RESET by handle 2: the config reads back as given, and the window's registers read all ones. -/
def failsRecovery (data : List UInt8) : List Move :=
  [.ops .ioctl ([.count 4] ++ plainOps 2), .ends .ioctl,
    .ioctl { fileObject := some 2, requestor := some 2, inLen := 8 } .postReset 2,
    .ops .ioctl (plainOps 10 ++ [.bytes [0x52, 0x1E], .unit, .bytes [0, 0], .unit] ++
      List.replicate 64 (.count 4) ++ [.bytes data] ++ plainOps 6 ++
      [.word 0xFFFFFFFF, .word 0xFFFFFFFF, .word 0xFFFFFFFF] ++ plainOps 2), .ends .ioctl]

/-- The config reads back short, but as it was, and the recovery fails. -/
theorem saved_config_good_failing : ∃ c : WatchedConfig Images,
    Reach (driver.observe imageLog) (resavesAgree fun _ => 0xFF) c ∧ c.pool .ioctl = none ∧
      c.world.1.ctx.needsHwInit = true ∧ c.world.2.transferred.length = 16 ∧
        c.world.1.ctx.Holds (fun _ => 0xFF) c.world.2.captured := by
  have hplay : (WatchedConfig.play imageLog (resavesAgreeTest fun _ => 0xFF)
      ((cardArrives 0x10000000 ++ opens 2 2 ++ armsReset ++ failsRecovery (List.replicate 16 0)).map .driver)
      (idle.watched {})).any (fun c => (c.pool .ioctl).isNone && (c.world.1.ctx.needsHwInit &&
        c.world.2.transferred.length == 16)) = true := by decide +kernel
  obtain ⟨c, hreach, hend⟩ :=
    WatchedConfig.exists_reach (resavesAgreeTest_implies _) (show imageLog.initial {} {} from rfl) hplay
  simp only [Bool.and_eq_true, Option.isNone_iff_eq_none, beq_iff_eq] at hend
  obtain ⟨hended, hneeds, hlength⟩ := hend
  exact ⟨c, hreach, hended, hneeds, hlength, saved_config_good hreach hneeds⟩

/-- The top byte of BAR 0. -/
def bar0Mask (i : Nat) : UInt8 := if i = 0x13 then 0xFF else 0

/-- The config reads back as all ones, the recovery fails, and the device stays restricted with that. -/
theorem saved_config_poisoned : ¬ ∀ c : WatchedConfig Images, Reach (driver.observe imageLog) anyStep c →
    c.world.1.ctx.needsHwInit = true → c.world.1.ctx.Holds bar0Mask c.world.2.captured := by
  intro hall
  have hplay : (WatchedConfig.play imageLog (fun _ _ _ => true)
      ((cardArrives 0x10000000 ++ opens 2 2 ++ armsReset ++ failsRecovery (List.replicate 256 0xFF)).map .driver)
      (idle.watched {})).any (fun c => c.world.1.ctx.needsHwInit &&
        !decide (SameBits 0xFF (c.world.1.ctx.savedConfig 0x13) (c.world.2.captured.getD 0x13 0))) = true := by
    decide +kernel
  obtain ⟨c, hreach, hend⟩ :=
    WatchedConfig.exists_reach (fun _ _ _ _ => trivial) (show imageLog.initial {} {} from rfl) hplay
  simp only [Bool.and_eq_true, Bool.not_eq_true', decide_eq_false_iff_not] at hend
  exact hend.2 (hall c hreach hend.1 0x13 (by decide))

end TtWind
