import TtWind.Effect.During
import TtWind.Laws.Calls
import TtWind.Laws.Schedule
import TtWind.Laws.Discipline

/-!
# A refused reset changes nothing

RESET_DEVICE commits itself late: whatever its calls to the bus answer, nothing it does before
the marker write took counts, and from there on it can only succeed. Whoever else steps
meanwhile, a request that is about to be answered with an error has left everything as it was.
The device's config space is a log of the writes that took: one reported short wrote nothing.
-/

set_option autoImplicit false

namespace TtWind

open TtWind.Effect TtWind.Effect.Prog

/-- The device's config space. -/
abbrev ConfigBytes := Nat → UInt8

/-- The log of the device's config space, which the device may change by itself. -/
def configLog : Observer DriverSig Tid World ConfigBytes where
  initial _ _ := True
  note
    | _, .setBusData off data, n, _, g =>
      if n = data.length then
        fun i => if off ≤ i ∧ i < off + data.length then data.getD (i - off) 0 else g i
      else g
    | _, _, _, _, g => g
  drift n g := some (Function.update g (n / 256) (UInt8.ofNat n))

/-- Nothing that a reset is about has been changed, and no trigger has been written;
`restricted` is whether a reset was in flight before. -/
structure Unchanged (restricted : Bool) (o : Op) (x y : World × ConfigBytes) : Prop where
  untriggered : ∀ data, o ≠ .setBusData ifcTimerTargetOff data ∧ o ≠ .setBusData ifcTimerControlOff data
  generation : y.1.ctx.resetGeneration = x.1.ctx.resetGeneration
  handles : y.1.fileGen = x.1.fileGen
  owners : y.1.ctx.tlbOwner = x.1.ctx.tlbOwner
  bitmap : y.1.ctx.tlbBitmap = x.1.ctx.tlbBitmap
  mappings : y.1.ctx.mappingList = x.1.ctx.mappingList
  needs : y.1.ctx.needsHwInit = x.1.ctx.needsHwInit
  verified : y.1.ctx.sysmemVerified = x.1.ctx.sysmemVerified
  saved : restricted = true → y.1.ctx.savedConfig = x.1.ctx.savedConfig
  config : y.2 = x.2

/-! ## How far a request has committed itself -/

/-- What the history of a request shows: nothing yet, that no reset was in flight, or that
something was changed. -/
inductive Standing where
  | undecided
  | unrestricted
  | committed
  deriving DecidableEq

/-- The store writes the saved config at most. -/
def SavesOnly (f : DeviceContext → DeviceContext) : Prop :=
  ∀ c, f c = { c with savedConfig := (f c).savedConfig, savedConfigValid := (f c).savedConfigValid }

/-- The event changes nothing that counts. The save does not count while no reset is in flight,
nor does a write of the marker that did not take. -/
def Standing.Spares : Standing → Event → Prop
  | s, ⟨.store f, _⟩ => s = .unrestricted ∧ SavesOnly f
  | _, ⟨.locked s, _⟩ => s = .anyMapping
  | _, ⟨.setFileGen _ _, _⟩ => False
  | _, ⟨.setBusData off data, n⟩ => off = pciCfgCommand ∧ n ≠ data.length
  | _, _ => True

open Classical in
/-- One event further. -/
noncomputable def Standing.after (ev : Event) (s : Standing) : Standing :=
  if s = .committed ∨ ¬ s.Spares ev then .committed
  else match ev with
    | ⟨.load, c⟩ => if c.needsHwInit then .undecided else .unrestricted
    | _ => s

theorem Standing.after_committed (ev : Event) : Standing.after ev .committed = .committed :=
  if_pos (.inl rfl)

/-- What is committed stays so. -/
theorem Standing.committed_of_prefix {evs evs' : List Event} {s : Standing}
    (h : evs.foldr Standing.after s = .committed) :
    (evs' ++ evs).foldr Standing.after s = .committed := by
  rw [List.foldr_append, h]
  induction evs' with
  | nil => rfl
  | cons ev evs' ih => rw [List.foldr_cons, ih, after_committed]

theorem Standing.spares_of_after {ev : Event} {s : Standing} (h : s.after ev ≠ .committed) :
    s ≠ .committed ∧ s.Spares ev := by
  unfold after at h
  split at h
  · exact absurd rfl h
  · rename_i hs
    exact ⟨fun hc => hs (.inl hc), not_not.mp fun hn => hs (.inr hn)⟩

theorem Standing.after_of_spares {o : Op} {a : o.Ans} {s : Standing} (hs : s ≠ .committed)
    (hsp : s.Spares ⟨o, a⟩) (hload : o ≠ .load) : s.after ⟨o, a⟩ = s := by
  unfold after
  rw [if_neg (by simp [hs, hsp])]
  cases o with
  | load => exact absurd rfl hload
  | _ => rfl

/-! ## The exits -/

/-- A request that has committed itself is answered with success only. -/
def Standing.Allows : Standing → Op → Prop
  | s, .complete status _ => s = .committed → status.ok = true
  | _, _ => True

/-- A program that answers with a status may be answered with an error as long as it has not
committed itself. -/
def Standing.Answers (s : Standing) (status : NtStatus) : Prop := s = .committed → status.ok = true

/-- A program that leads from one standing to another. -/
abbrev Advances {α : Type} (p : Drv α) (Q : Standing → α → Prop) (s : Standing) : Prop :=
  p.Follows Standing.Allows Standing.after Q s

/-- Operations that never count, the completion of the request apart. -/
def Op.Idle : Op → Prop
  | .store _ | .setFileGen _ _ | .setBusData _ _ | .complete _ _ => False
  | .locked s => s = .anyMapping
  | _ => True

theorem Op.Idle.allows {o : Op} (h : o.Idle) (s : Standing) : s.Allows o := by
  cases o with
  | complete => exact h.elim
  | _ => exact trivial

theorem Op.Idle.spares {o : Op} (h : o.Idle) (s : Standing) (a : o.Ans) : s.Spares ⟨o, a⟩ := by
  cases o with
  | locked => exact h
  | _ => first | exact trivial | exact h.elim

/-- What an idle operation shows may change the standing, but commits to nothing. -/
theorem Op.Idle.after {o : Op} (h : o.Idle) {s : Standing} (hs : s ≠ .committed) (a : o.Ans) :
    s.after ⟨o, a⟩ ≠ .committed := by
  by_cases hload : o = .load
  · subst hload
    unfold Standing.after
    rw [if_neg (by simp [hs, h.spares s a])]
    show (if a.needsHwInit then Standing.undecided else .unrestricted) ≠ .committed
    split <;> nofun
  · rw [Standing.after_of_spares hs (h.spares s a) hload]
    exact hs

section Walk

variable {α β : Type} {s : Standing} {fileObject : Option FileObject}

/-- Idle operations commit to nothing. -/
theorem idle_advances {p : Drv α} (hp : p.Only Op.Idle) (hs : s ≠ .committed) :
    Advances p (fun s _ => s ≠ .committed) s := by
  induction p generalizing s with
  | pure a => exact hs
  | vis o k ih => exact ⟨hp.1.allows s, fun x => ih x (hp.2 x trivial) (hp.1.after hs x)⟩

/-- Short of the completion, whatever is done is allowed. -/
theorem incomplete_advances {p : Drv α} (hp : p.Only fun o : Op => ∀ status n, o ≠ .complete status n) :
    Advances p (fun _ _ => True) s := by
  induction p generalizing s with
  | pure a => exact trivial
  | vis o k ih =>
    refine ⟨?_, fun x => ih x (hp.2 x trivial)⟩
    have ho := hp.1
    cases o with
    | complete status n => exact absurd rfl (ho status n)
    | _ => exact trivial

/-- An error before anything counts. -/
theorem answers_early {status : NtStatus} (hs : s ≠ .committed) :
    Advances (Pure.pure status : Drv NtStatus) Standing.Answers s := fun hc => absurd hc hs

/-- The config is saved only when the load has shown that no reset is in flight. -/
theorem saveConfigOnce_advances (hs : s ≠ .committed) :
    Advances saveConfigOnce (fun s _ => s ≠ .committed) s := by
  have hsave : ∀ f, SavesOnly f → Standing.after ⟨.store f, ()⟩ .unrestricted = .unrestricted :=
    fun f hf => Standing.after_of_spares nofun ⟨rfl, hf⟩ nofun
  have hread : ∀ data, Standing.after ⟨.getBusData 0 pciCfgSaveBytes, data⟩ .unrestricted =
      .unrestricted := fun data => Standing.after_of_spares nofun trivial nofun
  refine ⟨trivial, fun c => ?_⟩
  have hload : s.after ⟨.load, c⟩ = if c.needsHwInit then .undecided else .unrestricted := by
    unfold Standing.after
    rw [if_neg]
    rintro (hc | hn)
    · exact hs hc
    · exact hn trivial
  rw [hload]
  refine Follows.ite (fun hneeds => ?_) fun hneeds => ?_
  · rw [if_pos hneeds]
    exact follows_pure nofun
  · rw [if_neg hneeds]
    refine ⟨trivial, fun data => ?_⟩
    rw [hread]
    refine ⟨trivial, fun _ => ?_⟩
    rw [hsave _ fun _ => rfl]
    refine Follows.ite (fun _ => follows_pure nofun) fun _ => ⟨trivial, fun _ => ?_⟩
    rw [hsave _ fun _ => rfl]
    exact follows_pure nofun

/-- RESET_DEVICE under ArcLock: past the marker it only succeeds. -/
theorem armReset_advances (hs : s ≠ .committed) :
    Advances (armReset fileObject) Standing.Answers s := by
  have hread : ∀ off len, (cfgRead off len).Only Op.Idle := fun _ _ => ⟨trivial, fun _ _ => trivial⟩
  have hpresent : devicePresent.Only Op.Idle :=
    ⟨trivial, fun _ _ => ⟨trivial, fun _ _ => trivial⟩⟩
  refine (idle_advances hpresent hs).bind fun s _ hs => ?_
  refine Follows.ite (fun _ => answers_early hs) fun _ => ?_
  refine (saveConfigOnce_advances hs).bind fun s status hs => ?_
  refine Follows.ite (fun _ => answers_early hs) fun _ => ?_
  refine (idle_advances (hread _ _) hs).bind fun s ⟨data, full⟩ hs => ?_
  refine Follows.ite (fun _ => answers_early hs) fun _ => ?_
  refine ⟨trivial, fun n => ?_⟩
  -- a marker that was not written whole is one that was not written
  refine Follows.ite (fun hshort => answers_early ?_) fun _ => ?_
  · have hspares : s.Spares ⟨.setBusData pciCfgCommand
        (leBytes (word16 data ||| pciCmdParity).toNat 2), n⟩ := ⟨rfl, by simpa using hshort⟩
    rw [Standing.after_of_spares hs hspares nofun]
    exact hs
  · have hcarry : (carryForward fileObject).Only fun o : Op => ∀ status n, o ≠ .complete status n := by
      cases fileObject with
      | none => exact trivial
      | some fo => exact ⟨nofun, fun _ _ => ⟨nofun, fun _ _ => trivial⟩⟩
    refine ⟨trivial, fun _ => (incomplete_advances hcarry).bind fun s _ _ => ?_⟩
    exact ⟨trivial, fun _ => ⟨trivial, fun _ => ⟨trivial, fun _ => ⟨trivial, fun _ => fun _ => rfl⟩⟩⟩⟩

theorem ioctlResetDevice_advances (hs : s ≠ .committed) :
    Advances (ioctlResetDevice fileObject) Standing.Answers s := by
  have hidle : ∀ {o : Op}, o.Idle → (op o).Only Op.Idle := fun ho => (within_perform _).mpr ho
  have hfield : ∀ off, (inU32 off).Only Op.Idle := fun _ => ⟨trivial, fun _ _ => trivial⟩
  refine (idle_advances (hidle (o := .inputBuffer 8) trivial) hs).bind fun s _ hs => ?_
  refine Follows.ite (fun _ => answers_early hs) fun _ => ?_
  refine (idle_advances (hfield 0) hs).bind fun s _ hs => ?_
  refine (idle_advances (hfield 4) hs).bind fun s _ hs => ?_
  refine Follows.ite (fun _ => answers_early hs) fun _ => ?_
  refine (idle_advances (hidle (o := .load) trivial) hs).bind fun s _ hs => ?_
  refine Follows.ite (fun _ => answers_early hs) fun _ => ?_
  refine (idle_advances (hidle (o := .locked .anyMapping) rfl) hs).bind fun s _ hs => ?_
  refine Follows.ite (fun _ => answers_early hs) fun _ => ?_
  refine (idle_advances (hidle (o := .acquire .arc) trivial) hs).bind fun s _ hs => ?_
  refine (armReset_advances hs).bind fun s status hanswer => ⟨trivial, fun _ => ?_⟩
  intro hc
  by_cases hs : s = .committed
  · exact hanswer hs
  · exact absurd hc (Op.Idle.after (o := .release .arc) trivial hs ())

/-- The whole request. -/
theorem resetRequest_advances (hs : s ≠ .committed) :
    Advances (evtIoDeviceControl fileObject .resetDevice) (fun _ _ => True) s := by
  have hstale : (isStale fileObject).Only Op.Idle :=
    isStale_only trivial (fun _ => trivial) fileObject
  have hrejected : ∀ {s : Standing} (status : NtStatus), s ≠ .committed →
      Advances (op (.complete status 0)) (fun _ _ => True) s := fun status hs =>
    ⟨fun hc => absurd hc hs, fun _ => trivial⟩
  refine (idle_advances hstale hs).bind fun s _ hs => ?_
  refine Follows.ite (fun _ => hrejected _ hs) fun _ => ⟨trivial, fun c => ?_⟩
  have hs := Op.Idle.after (o := .load) trivial hs c
  refine Follows.ite (fun _ => hrejected _ hs) fun _ => ?_
  refine Follows.bind (Q := fun s (r : NtStatus × Nat) => s.Answers r.1) ?_ fun s r hr => ⟨hr, fun _ => trivial⟩
  exact (ioctlResetDevice_advances hs).bind fun s status hanswer => follows_pure hanswer

end Walk

/-! ## Steps of a request, and of the others -/

section Steps

variable {x y : World × ConfigBytes} {t : Tid} {o : Op} {e : Choice} {a : o.Ans}

/-- Only the dispatcher's thread says whether a reset is in flight. -/
theorem Placed.needs {w w' : World} (h : Placed t o w) (ht : t ≠ .ioctl)
    (he : World.exec t o e w = some (a, w')) : w'.ctx.needsHwInit = w.ctx.needsHwInit := by
  rw [(World.exec_frame he).ctx]
  cases o with
  | store f =>
    rcases h with ⟨-, -, hquiet | hunverify | ⟨hio, -⟩ | ⟨harc, -⟩⟩ | ⟨-, hhw⟩
    · exact hquiet.arc.needs w.ctx
    · rw [hunverify]
      rfl
    · exact absurd hio ht
    · exact harc.needs w.ctx
    · show (f w.ctx).needsHwInit = w.ctx.needsHwInit
      rw [(hhw w.ctx).1]
  | locked s =>
    show (s.run w.ctx).2.needsHwInit = w.ctx.needsHwInit
    rw [Section.run_frame w.ctx s]
  | _ => rfl

/-- A step that spares the standing changes nothing that counts. -/
theorem Standing.Spares.unchanged {s : Standing} (h : s.Spares ⟨o, a⟩)
    (hs : s = .unrestricted → x.1.ctx.needsHwInit = false)
    (he : (driverMachine.observe configLog).exec t o e x = some (a, y)) :
    Unchanged x.1.ctx.needsHwInit o x y := by
  obtain ⟨hexec, -, hnote⟩ := watched_exec he
  have hf := World.exec_frame hexec
  have hstamp : ¬ o.stampsFile := by
    intro hn
    cases o with
    | setFileGen => exact h
    | _ => exact hn
  have htrigger : ∀ data, o ≠ .setBusData ifcTimerTargetOff data ∧
      o ≠ .setBusData ifcTimerControlOff data := by
    intro data
    constructor <;>
    · rintro rfl
      exact absurd h.1 (by decide)
  have hconfig : y.2 = x.2 := by
    rw [hnote]
    cases o with
    | setBusData off data => exact if_neg h.2
    | _ => rfl
  by_cases hstore : ∃ f, o = .store f
  · obtain ⟨f, rfl⟩ := hstore
    obtain ⟨hopen, hsaves⟩ := h
    have hctx : y.1.ctx = f x.1.ctx := hf.ctx
    rw [hsaves x.1.ctx] at hctx
    have hfree := hs hopen
    refine ⟨htrigger, ?_, hf.fileGen hstamp, ?_, ?_, ?_, ?_, ?_, ?_, hconfig⟩
    · rw [hctx]
    · rw [hctx]
    · rw [hctx]
    · rw [hctx]
    · rw [hctx]
    · rw [hctx]
    · intro hrestricted
      rw [hfree] at hrestricted
      cases hrestricted
  · have hctx : y.1.ctx = x.1.ctx := by
      rw [hf.ctx]
      cases o with
      | store f => exact absurd ⟨f, rfl⟩ hstore
      | locked s =>
        obtain rfl : s = .anyMapping := h
        rfl
      | _ => rfl
    refine ⟨htrigger, ?_, hf.fileGen hstamp, ?_, ?_, ?_, ?_, ?_, fun _ => ?_, hconfig⟩ <;> rw [hctx]

/-- What a history shows of a request that has not committed itself: whether a reset was in
flight is as it was in the beginning, and as the history shows it. -/
def Intact (restricted : Bool) (s : Standing) (x : World × ConfigBytes) : Prop :=
  s ≠ .committed → x.1.ctx.needsHwInit = restricted ∧ (s = .unrestricted → x.1.ctx.needsHwInit = false)

theorem Intact.congr {restricted : Bool} {s : Standing} (h : Intact restricted s x)
    (hneeds : y.1.ctx.needsHwInit = x.1.ctx.needsHwInit) : Intact restricted s y := by
  intro hs
  rw [hneeds]
  exact h hs

theorem Intact.own {restricted : Bool} {s : Standing} (h : Intact restricted s x)
    (he : (driverMachine.observe configLog).exec t o e x = some (a, y)) :
    Intact restricted (s.after ⟨o, a⟩) y := by
  intro hafter
  obtain ⟨hs, hspares⟩ := Standing.spares_of_after hafter
  obtain ⟨hrestricted, hopen⟩ := h hs
  have hneeds := (hspares.unchanged hopen he).needs
  rw [hneeds]
  refine ⟨hrestricted, fun hstanding => ?_⟩
  by_cases hload : o = .load
  · subst hload
    -- what the load has shown
    obtain ⟨w₁, hstep, -⟩ := World.exec_step (watched_exec he).1
    obtain ⟨rfl, -⟩ := Prod.mk.inj (Option.some.inj hstep)
    unfold Standing.after at hstanding
    rw [if_neg (by simp [hs, hspares])] at hstanding
    by_contra hneeds
    have htrue : x.1.ctx.needsHwInit = true := by simpa using hneeds
    simp [htrue] at hstanding
  · rw [Standing.after_of_spares hs hspares hload] at hstanding
    exact hopen hstanding

end Steps

/-- Nobody else commits a request, or says whether a reset is in flight. -/
theorem intact_upheld (restricted : Bool) :
    Upheld (driver.observe configLog) anyStep .ioctl Standing.after (Intact restricted) where
  own _ h hj := by
    cases h with
    | exec _ _ he => exact hj.own he
  begins _ hb hj := hj.congr (by rw [begins_ctx hb.1])
  other hc _ hu h hj := by
    cases h with
    | exec hp _ he =>
      have hplaced := (mmio_sound.about (reach_unwatched hc) hp trivial).2
      exact hj.congr (hplaced.needs hu (watched_exec he).1)
  ends _ he hj := by
    refine hj.congr ?_
    have hleave := he.1
    rw [hleave, World.leave_ctx]
  env he hj := by
    refine hj.congr ?_
    rcases he with ⟨he, -⟩ | ⟨hsame, -⟩
    · rw [environment_ctx he]
    · rw [hsame]

/-- A refused reset changes nothing: in whatever configuration the request begins and whoever
steps meanwhile, if it comes to an error, none of its operations has changed the generation, a
handle's generation, the windows, the mappings, the flags, the saved config of a restricted
device or the device's config space, and none wrote a trigger. -/
theorem refused_reset_unchanged {fileObject : Option FileObject} {c₀ c₁ c₂ c₃ : WatchedConfig ConfigBytes}
    {o : Op} {a : o.Ans} {status : NtStatus} {n : Nat} {k : Unit → Drv Unit}
    (hc : Reach (driver.observe configLog) anyStep c₀)
    (hbegun : c₀.pool .ioctl = some (evtIoDeviceControl fileObject .resetDevice))
    (hbefore : During (driver.observe configLog) anyStep .ioctl c₀ c₁)
    (hstep : Own (driver.observe configLog) anyStep .ioctl o a c₁ c₂)
    (hafter : During (driver.observe configLog) anyStep .ioctl c₂ c₃)
    (hend : c₃.pool .ioctl = some (.vis (.complete status n) k)) (herr : status.ok = false) :
    Unchanged c₀.world.1.ctx.needsHwInit o c₁.world c₂.world := by
  have hstart : Intact c₀.world.1.ctx.needsHwInit .undecided c₀.world := fun _ => ⟨rfl, nofun⟩
  have hupheld := intact_upheld c₀.world.1.ctx.needsHwInit
  obtain ⟨evs, q, hq, hleads, hj⟩ := hbefore.state hupheld hc hbegun hstart
  have hreach₁ := hc.run hbefore.run
  have hreach₂ := hreach₁.step hstep.step
  have hj₂ := hupheld.own hreach₁ hstep hj
  cases hstep with
  | @exec k' e w hpool _ he =>
    obtain rfl := Option.some.inj (hq.symm.trans hpool)
    obtain ⟨evs', q', hq', hleads', -⟩ :=
      hafter.state hupheld hreach₂ (c₁.set_pool_self w .ioctl _) hj₂
    obtain rfl := Option.some.inj (hq'.symm.trans hend)
    have hwalk : Advances (evtIoDeviceControl fileObject .resetDevice) (fun _ _ => True) .undecided :=
      resetRequest_advances nofun
    have hstanding := hleads'.follows ((hleads.step a).follows hwalk)
    have huncommitted : (evs'.foldr Standing.after
        ((⟨o, a⟩ :: evs).foldr Standing.after .undecided)) ≠ .committed := by
      intro hcommitted
      have hok : status.ok = true := hstanding.1 hcommitted
      rw [herr] at hok
      cases hok
    have hspared : (evs.foldr Standing.after .undecided).after ⟨o, a⟩ ≠ .committed := by
      intro hcommitted
      apply huncommitted
      rw [← List.foldr_append]
      exact Standing.committed_of_prefix hcommitted
    obtain ⟨hs, hspares⟩ := Standing.spares_of_after hspared
    obtain ⟨hrestricted, hopen⟩ := hj hs
    rw [← hrestricted]
    exact hspares.unchanged hopen he

/-! ## A marker that is not written -/

/-- A write of config space is next. -/
def busWrite : Option (Drv Unit) → Option (Nat × List UInt8)
  | some (.vis (.setBusData off data) _) => some (off, data)
  | _ => none

/-- A request is next to be answered. -/
def answer : Option (Drv Unit) → Option NtStatus
  | some (.vis (.complete status _) _) => some status
  | _ => none

theorem exists_of_busWrite {q : Option (Drv Unit)} {off : Nat} {data : List UInt8}
    (h : busWrite q = some (off, data)) : ∃ k, q = some (.vis (.setBusData off data) k) := by
  unfold busWrite at h
  split at h
  · cases h
    exact ⟨_, rfl⟩
  · cases h

theorem exists_of_answer {q : Option (Drv Unit)} {status : NtStatus} (h : answer q = some status) :
    ∃ n k, q = some (.vis (.complete status n) k) := by
  unfold answer at h
  split at h
  · cases h
    exact ⟨_, _, rfl⟩
  · cases h

/-- RESET_DEVICE by handle 2, up to the write of the marker. -/
def marksReset : List Choice :=
  plainOps 9 ++ [.bytes [0x52, 0x1E]] ++ plainOps 2 ++ [.bytes (List.replicate 256 0)] ++ plainOps 2 ++
    [.bytes [0, 0]]

/-- A card arrives, and the bus writes one byte of the marker's two. -/
theorem refused_reset_unchanged_marker :
    ∃ (c₁ c₂ : WatchedConfig ConfigBytes) (a : Nat),
      Own (driver.observe configLog) anyStep .ioctl (.setBusData pciCfgCommand [0x40, 0]) a c₁ c₂ ∧
        Unchanged false (.setBusData pciCfgCommand [0x40, 0]) c₁.world c₂.world := by
  have hplay : (WatchedConfig.play configLog (fun _ _ _ => true)
      ((cardArrives 0x10000000 ++ opens 2 2).map .driver ++
        [.driver (.ioctl { fileObject := some 2, requestor := some 2, inLen := 8 } .resetDevice 2)])
      (idle.watched fun _ => 0)).any (fun c => !c.world.1.ctx.needsHwInit &&
        (WatchedConfig.ops configLog (fun _ _ _ => true) .ioctl marksReset c).any fun c₁ =>
          busWrite (c₁.pool .ioctl) == some (pciCfgCommand, [0x40, 0]) &&
            (WatchedConfig.ops configLog (fun _ _ _ => true) .ioctl [.count 1] c₁).any fun c₂ =>
              (WatchedConfig.ops configLog (fun _ _ _ => true) .ioctl (plainOps 1) c₂).any fun c₃ =>
                answer (c₃.pool .ioctl) == some .deviceDataError) = true := by
    decide +kernel
  have hallow : ∀ (t : Tid) (o : Op) (x : World × ConfigBytes), true = true →
      anyStep (S := DriverSig) t o x := fun _ _ _ _ => trivial
  have hinitial : configLog.initial {} fun _ => 0 := trivial
  obtain ⟨c₀, hreach, htest, hbegun, -⟩ := WatchedConfig.exists_reach_begun hallow hinitial hplay
  simp only [Bool.and_eq_true, Bool.not_eq_true', Option.any_eq_true, beq_iff_eq] at htest
  obtain ⟨hfree, c₁, hbefore, hnext, c₂, hmark, c₃, hafter, hend⟩ := htest
  obtain ⟨k, hpool⟩ := exists_of_busWrite hnext
  obtain ⟨a, hstep⟩ := WatchedConfig.own_of_ops hallow hmark hpool
  obtain ⟨n, k', hanswer⟩ := exists_of_answer hend
  refine ⟨c₁, c₂, a, hstep, hfree ▸ ?_⟩
  exact refused_reset_unchanged hreach hbegun (WatchedConfig.during_of_ops hallow hbefore) hstep
    (WatchedConfig.during_of_ops hallow hafter) hanswer rfl

end TtWind
