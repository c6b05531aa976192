import Mathlib.Data.List.Basic
import TtWind.Laws.Calls
import TtWind.Laws.Current

/-!
# The generation fence

A log of the run lists the handle each reset was armed through, and how many had been when
each handle read the generation it was created with. The device's generation counts the
arms; a handle is stamped with the count it has read, and with each arm of its own it moves
on. So the fence lets through exactly the handles all of whose later arms are their own.
-/

set_option autoImplicit false

namespace TtWind

open TtWind.Effect TtWind.Effect.Prog TtWind.Effect.Protocol

/-! ## The log -/

/-- The handles the resets were armed through, latest first, and how many there were when
each handle read the generation it was created with. -/
structure Arms where
  arms : List (Option FileObject) := []
  captured : FileObject → Nat := fun _ => 0

namespace Arms

/-- The arms since the handle read its generation. -/
def since (g : Arms) (fo : FileObject) : List (Option FileObject) :=
  g.arms.take (g.arms.length - g.captured fo)

/-- Every arm since then was issued through the handle itself. -/
def Own (g : Arms) (fo : FileObject) : Prop := ∀ x ∈ g.since fo, x = some fo

instance (g : Arms) (fo : FileObject) : Decidable (g.Own fo) :=
  inferInstanceAs (Decidable (∀ x ∈ g.since fo, x = some fo))

/-- One more arm. -/
theorem since_cons {g : Arms} {fo : FileObject} (h : g.captured fo ≤ g.arms.length)
    (x : Option FileObject) : ({ g with arms := x :: g.arms } : Arms).since fo = x :: g.since fo := by
  have hlen : g.arms.length + 1 - g.captured fo = (g.arms.length - g.captured fo) + 1 := by omega
  simp only [since, List.length_cons, hlen, List.take_succ_cons]

/-- More arms. -/
theorem since_append {g : Arms} {fo : FileObject} (h : g.captured fo ≤ g.arms.length)
    (xs : List (Option FileObject)) :
    ({ g with arms := xs ++ g.arms } : Arms).since fo = xs ++ g.since fo := by
  induction xs with
  | nil => rfl
  | cons x xs ih =>
    have hle : g.captured fo ≤ (xs ++ g.arms).length := by
      rw [List.length_append]
      omega
    rw [List.cons_append, since_cons (g := { g with arms := xs ++ g.arms }) hle, ih, List.cons_append]

/-- One more arm keeps a handle own exactly if it is its own. -/
theorem own_cons {g : Arms} {fo : FileObject} (h : g.captured fo ≤ g.arms.length)
    (x : Option FileObject) :
    ({ g with arms := x :: g.arms } : Arms).Own fo ↔ x = some fo ∧ g.Own fo := by
  simp only [Own, since_cons h, List.mem_cons, forall_eq_or_imp]

end Arms

/-- The log of the arms: RESET_DEVICE arms at the fence, after which it writes the trigger
(`resetDevice_triggers_iff`), and a create reads the generation by the one load it makes. -/
def armsLog : Observer DriverSig Tid World Arms where
  initial _ g := g = {}
  note
    | _, .locked .fence, _, w, g => { g with arms := w.req.fileObject :: g.arms }
    | .create fo, .load, _, _, g =>
      { g with captured := Function.update g.captured fo g.arms.length }
    | _, _, _, _, g => g

/-- The handle's stamp is the number of arms, or falls short of it, as every arm since it
read its generation is its own or not. -/
structure Exact (x : World × Arms) (fo : FileObject) : Prop where
  own : x.2.Own fo → x.1.fileGen fo = UInt64.ofNat x.2.arms.length
  stale : ¬ x.2.Own fo → (x.1.fileGen fo).toNat < x.2.arms.length

/-- Below the bound, an exact stamp tells a handle whose later arms are all its own. -/
theorem Exact.iff {x : World × Arms} {fo : FileObject} (h : Exact x fo)
    (hbound : x.2.arms.length < 2 ^ 64) :
    x.2.Own fo ↔ x.1.fileGen fo = UInt64.ofNat x.2.arms.length := by
  refine ⟨h.own, fun heq => ?_⟩
  by_contra hn
  have hlt := h.stale hn
  rw [heq, UInt64.toNat_ofNat_of_lt' hbound] at hlt
  exact absurd hlt (Nat.lt_irrefl _)

/-- What leaves the stamp and the log leaves it exact. -/
theorem Exact.congr {x y : World × Arms} {fo : FileObject} (h : Exact x fo)
    (hgen : y.1.fileGen fo = x.1.fileGen fo) (harms : y.2.arms = x.2.arms)
    (hcaptured : y.2.captured fo = x.2.captured fo) : Exact y fo := by
  have hown : y.2.Own fo ↔ x.2.Own fo := by
    simp only [Arms.Own, Arms.since, harms, hcaptured]
  refine ⟨fun ho => ?_, fun hn => ?_⟩
  · rw [hgen, harms]
    exact h.own (hown.mp ho)
  · rw [hgen, harms]
    exact h.stale fun ho => hn (hown.mpr ho)

/-! ## What is armed is triggered -/

/-- The section that arms a reset. -/
def Op.fences : Op → Bool
  | .locked .fence => true
  | _ => false

/-- The config write that triggers it. -/
def Op.triggers : Op → Bool
  | .setBusData off _ => off == ifcTimerControlOff
  | _ => false

/-- Neither the fence nor the trigger. -/
def Op.SparesArm (o : Op) : Prop := o.fences = false ∧ o.triggers = false

/-- Whether a call has run the section, and whether it has written the trigger. -/
def armedNext (ev : Event) (s : Bool × Bool) : Bool × Bool := (ev.1.fences || s.1, ev.1.triggers || s.2)

/-- The automaton has seen the fence or the trigger exactly if the history has them. -/
theorem armed_of_history (evs : List Event) :
    evs.foldr armedNext (false, false) = (evs.any (·.1.fences), evs.any (·.1.triggers)) := by
  induction evs with
  | nil => rfl
  | cons ev evs ih => rw [List.foldr_cons, ih, armedNext, List.any_cons, List.any_cons]

/-- From here on, the program runs the section exactly if it writes the trigger. -/
abbrev Arms.Matches {α : Type} (p : Drv α) : Prop :=
  p.Follows (S := DriverSig) (fun _ _ => True) armedNext (fun s _ => s.1 = s.2) (false, false)

/-- Code that does neither, in front of code that does both or none. -/
theorem matches_of_only {α β : Type} {p : Drv α} {f : α → Drv β}
    (hp : p.Only Op.SparesArm) (hf : ∀ a, Arms.Matches (f a)) :
    Arms.Matches (p >>= f) := by
  refine Follows.still (hp.follows (fun _ _ => trivial) fun o x ho => ?_) hf
  rw [armedNext, ho.1, ho.2]
  rfl

/-- The arm pulls the trigger if it has gone through the fence, and not otherwise. -/
theorem armReset_matches (fileObject : Option FileObject) : Arms.Matches (armReset fileObject) := by
  have hplain : ∀ o : Op, o.plain → o.SparesArm := by
    intro o ho
    cases o with
    | locked s => exact (ho : False).elim
    | setBusData off data => exact (ho : False).elim
    | _ => exact ⟨rfl, rfl⟩
  refine matches_of_only (devicePresent_only fun o ho => hplain o ho.plain) fun _ => Follows.ite (fun _ => rfl) fun _ => ?_
  have hsave : saveConfigOnce.Only Op.SparesArm := by
    refine ⟨⟨rfl, rfl⟩, fun c _ => Within.ite (fun _ => trivial) fun _ => ⟨⟨rfl, rfl⟩, fun data _ => ?_⟩⟩
    refine ⟨⟨rfl, rfl⟩, fun _ _ => Within.ite (fun _ => trivial) fun _ => ⟨⟨rfl, rfl⟩, fun _ _ => trivial⟩⟩
  refine matches_of_only hsave fun _ => Follows.ite (fun _ => rfl) fun _ => ⟨trivial, fun data => ?_⟩
  refine Follows.ite (fun _ => rfl) fun _ => ⟨trivial, fun n => Follows.ite (fun _ => rfl) fun _ => ⟨trivial, fun _ => ?_⟩⟩
  -- fenced, and from here on nothing fails
  have hcarry : (carryForward fileObject).Only Op.SparesArm :=
    carryForward_only ⟨rfl, rfl⟩ (fun _ _ => ⟨rfl, rfl⟩) fileObject
  refine Follows.still (p := carryForward fileObject) (hcarry.follows (fun _ _ => trivial) fun o x ho => ?_) fun _ => ?_
  · rw [armedNext, ho.1, ho.2]
    rfl
  · exact ⟨trivial, fun _ => ⟨trivial, fun _ => ⟨trivial, fun _ => ⟨trivial, fun _ => rfl⟩⟩⟩⟩

/-- A RESET_DEVICE that has returned wrote the trigger exactly if it ran the section in which `armsLog` counts it. -/
theorem resetDevice_triggers_iff {fileObject : Option FileObject} {evs : List Event} {status : NtStatus}
    (h : (ioctlResetDevice fileObject).Leads evs (.pure status)) :
    (∃ ev ∈ evs, ev.1.triggers = true) ↔ ∃ ev ∈ evs, ev.1.fences = true := by
  have hmatches : Arms.Matches (ioctlResetDevice fileObject) := by
    refine ⟨trivial, fun status => Follows.ite (fun _ => rfl) fun _ => ⟨trivial, fun flags => ⟨trivial, fun reserved => ?_⟩⟩⟩
    refine Follows.ite (fun _ => rfl) fun _ => ⟨trivial, fun c => Follows.ite (fun _ => rfl) fun _ => ⟨trivial, fun busy => ?_⟩⟩
    refine Follows.ite (fun _ => rfl) fun _ => ⟨trivial, fun _ => (armReset_matches fileObject).bind fun s status hs => ?_⟩
    exact ⟨trivial, fun _ => hs⟩
  have hend : (evs.foldr armedNext (false, false)).1 = (evs.foldr armedNext (false, false)).2 := h.follows hmatches
  rw [armed_of_history] at hend
  have hsame : evs.any (·.1.fences) = evs.any (·.1.triggers) := hend
  rw [← List.any_eq_true, ← List.any_eq_true, hsame]

/-! ## The protocol -/

/-- The generation counts the arms, and every handle that is neither being created nor
issuing the request at hand is stamped as it should be. -/
structure ArmsInv (L : Tid → Prop) (x : World × Arms) : Prop where
  bound : x.2.arms.length < 2 ^ 64
  generation : x.1.ctx.resetGeneration = UInt64.ofNat x.2.arms.length
  captured : ∀ fo, x.2.captured fo ≤ x.2.arms.length
  exact : ∀ fo, ¬ L (.create fo) → ¬ (L .ioctl ∧ x.1.req.fileObject = some fo) → Exact x fo

/-- Fewer than 2^64 arms. -/
def fewArms (_ : Tid) (o : Op) (x : World × Arms) : Prop :=
  o = .locked .fence → x.2.arms.length + 1 < 2 ^ 64

/-- What the other threads leave to a request. -/
structure AsAsked (x y : World × Arms) : Prop where
  request : y.1.req.fileObject = x.1.req.fileObject
  hist : y.1.hist .ioctl = x.1.hist .ioctl
  arms : y.2.arms = x.2.arms
  own : ∀ fo, x.1.req.fileObject = some fo →
    y.1.fileGen fo = x.1.fileGen fo ∧ y.2.captured fo = x.2.captured fo

/-- What the other threads leave to the creation of a handle: no arm is the handle's. -/
structure AsCreated (fo : FileObject) (x y : World × Arms) : Prop where
  stamp : y.1.fileGen fo = x.1.fileGen fo
  captured : y.2.captured fo = x.2.captured fo
  arms : ∃ xs, y.2.arms = xs ++ x.2.arms ∧ some fo ∉ xs

/-- What an operation of a thread does that the others may see. -/
structure ArmsStep (t : Tid) (x y : World × Arms) : Prop where
  request : y.1.req.fileObject = x.1.req.fileObject
  hist : ∀ u, u ≠ t → y.1.hist u = x.1.hist u
  arms : y.2.arms = x.2.arms ∨ t = .ioctl ∧ y.2.arms = x.1.req.fileObject :: x.2.arms
  captured : ∀ fo, t ≠ .create fo → y.2.captured fo = x.2.captured fo
  stamp : ∀ fo, t ≠ .create fo → (t = .ioctl → x.1.req.fileObject ≠ some fo) →
    y.1.fileGen fo = x.1.fileGen fo

/-- After its two reads the fence goes on to the dispatch, by a load, only for a handle all
of whose later arms are its own. -/
def fencing : Protocol DriverSig Tid (World × Arms) where
  allow := fewArms
  inv := ArmsInv
  known L x := Phases L x.1
  rely t x y :=
    match t with
    | .ioctl => AsAsked x y
    | .create fo => AsCreated fo x y
    | _ => True
  guar := ArmsStep
  pre t o x := t = .ioctl → (x.1.hist .ioctl).length = 2 → ∀ fo, x.1.req.fileObject = some fo →
    (o = .load ↔ x.2.Own fo)
  post t x :=
    match t with
    | .ioctl => ∀ fo, x.1.req.fileObject = some fo → Exact x fo
    | .create fo => Exact x fo
    | _ => True

/-- What a thread counts on stays while the others step any number of times. -/
theorem fencing_steady : fencing.Steady where
  refl t x := by
    cases t with
    | ioctl => exact ⟨rfl, rfl, rfl, fun _ _ => ⟨rfl, rfl⟩⟩
    | create fo => exact ⟨rfl, rfl, [], rfl, by simp⟩
    | _ => trivial
  trans t x y z h₁ h₂ := by
    cases t with
    | ioctl =>
      refine ⟨h₂.request.trans h₁.request, h₂.hist.trans h₁.hist, h₂.arms.trans h₁.arms,
        fun fo hfo => ?_⟩
      obtain ⟨hgen, hcap⟩ := h₁.own fo hfo
      obtain ⟨hgen', hcap'⟩ := h₂.own fo (h₁.request.trans hfo)
      exact ⟨hgen'.trans hgen, hcap'.trans hcap⟩
    | create fo =>
      obtain ⟨xs, hxs, hnot⟩ := h₁.arms
      obtain ⟨ys, hys, hnot'⟩ := h₂.arms
      refine ⟨h₂.stamp.trans h₁.stamp, h₂.captured.trans h₁.captured, ys ++ xs, ?_, ?_⟩
      · rw [hys, hxs, List.append_assoc]
      · rw [List.mem_append]
        exact fun h => h.elim hnot' hnot
    | _ => trivial

/-! ## Operations that neither arm nor stamp -/

/-- Operations that neither fence nor stamp a handle. -/
def unfencedFoot (o : Op) : Prop := o.KeepsTables ∧ o ≠ .locked .fence ∧ ¬ o.stampsFile

/-- Operations that the log makes nothing of. -/
theorem note_unfenced {t : Tid} {o : Op} {a : o.Ans} {w : World} {g : Arms} (ho : unfencedFoot o)
    (hcr : ∀ fo, t = .create fo → o ≠ .load) : armsLog.note t o a w g = g := by
  cases o with
  | load =>
    cases t with
    | create fo => exact absurd rfl (hcr fo rfl)
    | _ => rfl
  | locked s =>
    cases s with
    | fence => exact absurd rfl ho.2.1
    | _ => cases t <;> rfl
  | _ => cases t <;> rfl

/-- Such a step changes nothing that the log is about. -/
theorem unfenced_step {t : Tid} {o : Op} {e : Choice} {x y : World × Arms} {a : o.Ans}
    {L : Tid → Prop} (ho : unfencedFoot o) (hcr : ∀ fo, t = .create fo → o ≠ .load)
    (hinv : ArmsInv L x) (he : (driverMachine.observe armsLog).exec t o e x = some (a, y)) :
    ArmsInv L y ∧ ArmsStep t x y ∧ y.2 = x.2 ∧ y.1.fileGen = x.1.fileGen := by
  obtain ⟨he, -, hnote⟩ := watched_exec he
  have hf := World.exec_frame he
  have hseen : y.2 = x.2 := hnote.trans (note_unfenced ho hcr)
  have hstamp : y.1.fileGen = x.1.fileGen := hf.fileGen ho.2.2
  have hgen : y.1.ctx.resetGeneration = x.1.ctx.resetGeneration := by
    rw [hf.ctx]
    cases o with
    | store f => exact (ho.1 _).2.2.2
    | locked s => exact Section.run_generation fun h => ho.2.1 (by rw [h])
    | _ => rfl
  refine ⟨⟨?_, ?_, ?_, fun fo hcr hio => ?_⟩, ⟨hf.fileObject, fun u hu => ?_, .inl ?_, fun fo _ => ?_,
    fun fo _ _ => ?_⟩, hseen, hstamp⟩
  · rw [hseen]
    exact hinv.bound
  · rw [hgen, hseen]
    exact hinv.generation
  · rw [hseen]
    exact hinv.captured
  · rw [hf.fileObject] at hio
    exact (hinv.exact fo hcr hio).congr (by rw [hstamp]) (by rw [hseen]) (by rw [hseen])
  · rw [hf.hist, Function.update_of_ne hu]
  · rw [hseen]
  · rw [hseen]
  · rw [hstamp]

/-- The threads that are neither a request nor a create. -/
theorem bystander_keeps {t : Tid} (ht : t ≠ .ioctl) (hcr : ∀ fo, t ≠ .create fo) {α : Type}
    {p : Drv α} (hp : p.Only unfencedFoot) :
    fencing.Keeps (driverMachine.observe armsLog) t (fun _ => True) p := by
  refine Keeps.of_within (Stable.true t) (fun _ _ _ _ _ hio => absurd hio ht) ?_ hp
  intro o ho x L e a y _ _ hinv _ he
  obtain ⟨hinv', hstep, -⟩ := unfenced_step ho (fun fo h => absurd h (hcr fo)) hinv he
  exact ⟨hinv', hstep, trivial, trivial⟩

/-! ## The creation of a handle -/

/-- The handle has read the generation, and no arm since then is its own. -/
def Alien (fo : FileObject) (x : World × Arms) : Prop :=
  x.2.captured fo ≤ x.2.arms.length ∧ some fo ∉ x.2.since fo

/-- A handle that is being created is not stamped by anyone else. -/
theorem stable_alien (fo : FileObject) : fencing.Stable (.create fo) (Alien fo) := by
  intro x y hr h
  obtain ⟨xs, hxs, hnot⟩ := hr.arms
  have hsince : y.2.since fo = xs ++ x.2.since fo := by
    have happ := Arms.since_append h.1 xs
    simp only [Arms.since] at happ ⊢
    rw [hxs, hr.captured, happ]
  refine ⟨?_, ?_⟩
  · rw [hxs, hr.captured, List.length_append]
    exact Nat.le_trans h.1 (Nat.le_add_left _ _)
  · rw [hsince, List.mem_append]
    exact fun hm => hm.elim hnot h.2

/-- Stamped with the generation it read, the handle is stamped as it should be. -/
theorem Alien.exact {fo : FileObject} {x : World × Arms} (h : Alien fo x)
    (hstamp : x.1.fileGen fo = UInt64.ofNat (x.2.captured fo)) : Exact x fo := by
  -- an arm since then would be somebody else's
  have hown : x.2.Own fo ↔ x.2.captured fo = x.2.arms.length := by
    constructor
    · intro ho
      by_contra hne
      have hlt := Nat.lt_of_le_of_ne h.1 hne
      cases hs : x.2.since fo with
      | nil =>
        have hlen : (x.2.since fo).length = 0 := by rw [hs]; rfl
        rw [Arms.since, List.length_take] at hlen
        omega
      | cons y ys =>
        have hy : y ∈ x.2.since fo := by rw [hs]; exact List.mem_cons_self
        exact h.2 (ho y hy ▸ hy)
    · intro heq y hy
      rw [Arms.since, heq, Nat.sub_self, List.take_zero] at hy
      cases hy
  refine ⟨fun ho => ?_, fun hn => ?_⟩
  · rw [hstamp, hown.mp ho]
  · have hlt := Nat.lt_of_le_of_ne h.1 fun heq => hn (hown.mpr heq)
    rw [hstamp, UInt64.toNat_ofNat']
    exact Nat.lt_of_le_of_lt (Nat.mod_le _ _) hlt

/-- Creation stamps the handle with the generation it has read, and the log has noted the count. -/
theorem evtDeviceFileCreate_fencing (fo : FileObject) :
    fencing.Triple (driverMachine.observe armsLog) (.create fo) (fun _ => True)
      (evtDeviceFileCreate fo) fun _ x => Exact x fo := by
  have hpre : ∀ o x, fencing.pre (.create fo) o x := fun _ _ hio => by cases hio
  refine Triple.vis (I := fun c x => Alien fo x ∧
    DeviceContext.resetGeneration c = UInt64.ofNat (x.2.captured fo)) (Stable.true _)
    (fun _ _ _ => hpre _ _) ?_ fun c => ?_
  · intro x L e c y _ hl hinv _ he
    obtain ⟨he, -, hnote⟩ := watched_exec he
    have hf := World.exec_frame he
    have hctx : y.1.ctx = x.1.ctx := hf.ctx
    have hstamp : y.1.fileGen = x.1.fileGen := hf.fileGen id
    obtain ⟨w₁, hs, -⟩ := World.exec_step he
    obtain ⟨rfl, -⟩ := Prod.mk.inj (Option.some.inj hs)
    have hnote : y.2 = { x.2 with
      captured := Function.update x.2.captured fo x.2.arms.length } := hnote
    have hself : y.2.captured fo = x.2.arms.length := by rw [hnote]; exact Function.update_self _ _ _
    have hother : ∀ fo', fo' ≠ fo → y.2.captured fo' = x.2.captured fo' := by
      intro fo' hne
      rw [hnote]
      exact Function.update_of_ne hne _ _
    have harms : y.2.arms = x.2.arms := by rw [hnote]
    refine ⟨⟨?_, ?_, fun fo' => ?_, fun fo' hcr hio => ?_⟩, ⟨hf.fileObject, fun u hu => ?_, .inl harms,
      fun fo' hne => hother fo' fun h => hne (by rw [h]), fun _ _ _ => by rw [hstamp]⟩, ⟨?_, ?_⟩, ?_⟩
    · rw [harms]
      exact hinv.bound
    · rw [hctx, harms]
      exact hinv.generation
    · by_cases hne : fo' = fo
      · exact Nat.le_of_eq (by rw [hne, hself, harms])
      · rw [hother fo' hne, harms]
        exact hinv.captured fo'
    · have hne : fo' ≠ fo := fun h => hcr (h ▸ hl)
      rw [hf.fileObject] at hio
      exact (hinv.exact fo' hcr hio).congr (by rw [hstamp]) harms (hother fo' hne)
    · rw [hf.hist, Function.update_of_ne hu]
    · exact Nat.le_of_eq (by rw [hself, harms])
    · rw [Arms.since, hself, harms, Nat.sub_self, List.take_zero]
      exact List.not_mem_nil
    · rw [hself]
      exact hinv.generation
  · have hstable : fencing.Stable (.create fo) fun x => Alien fo x ∧
        DeviceContext.resetGeneration c = UInt64.ofNat (x.2.captured fo) := by
      intro x y hr h
      refine ⟨stable_alien fo x y hr h.1, ?_⟩
      rw [hr.captured]
      exact h.2
    have hstable' : fencing.Stable (.create fo) fun x => Alien fo x ∧
        x.1.fileGen fo = UInt64.ofNat (x.2.captured fo) := by
      intro x y hr h
      refine ⟨stable_alien fo x y hr h.1, ?_⟩
      rw [hr.stamp, hr.captured]
      exact h.2
    refine Triple.vis (I := fun _ x => Alien fo x ∧
      x.1.fileGen fo = UInt64.ofNat (x.2.captured fo)) hstable (fun _ _ _ => hpre _ _) ?_ fun _ => ?_
    · intro x L e a y hx hl hinv _ he
      obtain ⟨he, -, hnote⟩ := watched_exec he
      have hseen : y.2 = x.2 := hnote
      have hf := World.exec_frame he
      have hctx : y.1.ctx = x.1.ctx := hf.ctx
      have hstamp : y.1.fileGen = Function.update x.1.fileGen fo (DeviceContext.resetGeneration c) := by
        obtain ⟨w₁, hs, hy⟩ := World.exec_step he
        obtain ⟨-, rfl⟩ := Prod.mk.inj (Option.some.inj hs)
        rw [hy]
        rfl
      have hother : ∀ fo', fo' ≠ fo → y.1.fileGen fo' = x.1.fileGen fo' := by
        intro fo' hne
        rw [hstamp]
        exact Function.update_of_ne hne _ _
      refine ⟨⟨?_, ?_, ?_, fun fo' hcr hio => ?_⟩, ⟨hf.fileObject, fun u hu => ?_, .inl (by rw [hseen]),
        fun _ _ => by rw [hseen], fun fo' hne _ => hother fo' fun h => hne (by rw [h])⟩, ?_, ?_⟩
      · rw [hseen]
        exact hinv.bound
      · rw [hctx, hseen]
        exact hinv.generation
      · rw [hseen]
        exact hinv.captured
      · have hne : fo' ≠ fo := fun h => hcr (h ▸ hl)
        rw [hf.fileObject] at hio
        exact (hinv.exact fo' hcr hio).congr (hother fo' hne) (by rw [hseen]) (by rw [hseen])
      · rw [hf.hist, Function.update_of_ne hu]
      · rw [Alien, hseen]
        exact hx.1
      · rw [hstamp, Function.update_self, hseen]
        exact hx.2
    · refine Triple.vis (I := fun _ x => Alien fo x ∧
        x.1.fileGen fo = UInt64.ofNat (x.2.captured fo)) hstable' (fun _ _ _ => hpre _ _) ?_ fun _ =>
          Triple.pure hstable' fun x hx => hx.1.exact hx.2
      intro x L e a y hx _ hinv _ he
      obtain ⟨hinv', hstep, hseen, hstamp⟩ :=
        unfenced_step (o := .complete .success 0) ⟨trivial, nofun, id⟩ (fun _ _ => nofun) hinv he
      refine ⟨hinv', hstep, ?_, ?_⟩
      · rw [Alien, hseen]
        exact hx.1
      · rw [hstamp, hseen]
        exact hx.2

/-! ## Requests -/

section Request

variable {fileObject : Option FileObject}

/-- A request of the handle that has done `n` operations, its stamp as it should be. -/
structure Asking (fileObject : Option FileObject) (n : Nat) (x : World × Arms) : Prop where
  request : x.1.req.fileObject = fileObject
  hist : (x.1.hist .ioctl).length = n
  exact : ∀ fo, fileObject = some fo → Exact x fo

/-- The steps of the others leave the request its answer. -/
theorem stable_asking (n : Nat) : fencing.Stable .ioctl (Asking fileObject n) := by
  intro x y hr h
  refine ⟨hr.request.trans h.request, ?_, fun fo hfo => ?_⟩
  · rw [hr.hist]
    exact h.hist
  · obtain ⟨hgen, hcap⟩ := hr.own fo (h.request.trans hfo)
    exact (h.exact fo hfo).congr hgen hr.arms hcap

/-- The fence has made up its mind: whether every arm since is the handle's own. -/
structure Decided (fileObject : Option FileObject) (own : Prop) (x : World × Arms) : Prop where
  request : x.1.req.fileObject = fileObject
  made : ∀ fo, fileObject = some fo →
    (x.1.hist .ioctl).length = 2 ∧ Exact x fo ∧ (x.2.Own fo ↔ own)

/-- Past the fence every arm since is the handle's own. -/
structure Past (fileObject : Option FileObject) (x : World × Arms) : Prop where
  request : x.1.req.fileObject = fileObject
  own : ∀ fo, fileObject = some fo → 3 ≤ (x.1.hist .ioctl).length ∧ x.2.Own fo
  stamp : ∀ fo, fileObject = some fo → x.1.fileGen fo = UInt64.ofNat x.2.arms.length

/-- The handle's arms and its history are as others leave them. -/
theorem AsAsked.own_iff {x y : World × Arms} (h : AsAsked x y) {fo : FileObject}
    (hfo : x.1.req.fileObject = some fo) : y.2.Own fo ↔ x.2.Own fo := by
  simp only [Arms.Own, Arms.since, h.arms, (h.own fo hfo).2]

theorem stable_decided (own : Prop) : fencing.Stable .ioctl (Decided fileObject own) := by
  intro x y hr h
  refine ⟨hr.request.trans h.request, fun fo hfo => ?_⟩
  obtain ⟨hlen, hexact, hown⟩ := h.made fo hfo
  have hreq := h.request.trans hfo
  obtain ⟨hgen, hcap⟩ := hr.own fo hreq
  refine ⟨?_, hexact.congr hgen hr.arms hcap, (hr.own_iff hreq).trans hown⟩
  rw [hr.hist]
  exact hlen

theorem stable_past : fencing.Stable .ioctl (Past fileObject) := by
  intro x y hr h
  refine ⟨hr.request.trans h.request, fun fo hfo => ?_, fun fo hfo => ?_⟩
  · rw [hr.hist, hr.own_iff (h.request.trans hfo)]
    exact h.own fo hfo
  · rw [(hr.own fo (h.request.trans hfo)).1, hr.arms]
    exact h.stamp fo hfo

/-- Past the gate, the stamp of the asking handle is exact. -/
theorem Past.exact {x : World × Arms} (h : Past fileObject x) {fo : FileObject}
    (hfo : fileObject = some fo) : Exact x fo :=
  ⟨fun _ => h.stamp fo hfo, fun hn => absurd (h.own fo hfo).2 hn⟩

/-- Past the fence nothing is asked of an operation any more. -/
theorem pre_of_length {t : Tid} {o : Op} {x : World × Arms}
    (h : ∀ fo, x.1.req.fileObject = some fo → (x.1.hist .ioctl).length ≠ 2) : fencing.pre t o x :=
  fun _ hlen fo hfo => absurd hlen (h fo hfo)

theorem Past.pre {o : Op} {x : World × Arms} (h : Past fileObject x) : fencing.pre .ioctl o x := by
  apply pre_of_length
  intro fo hfo hlen
  have hlong := (h.own fo (h.request.symm.trans hfo)).1
  omega

/-- Operations outside the arm leave the stamp exact. -/
theorem unfenced_past {o : Op} {e : Choice} {x y : World × Arms} {a : o.Ans} {L : Tid → Prop}
    (ho : unfencedFoot o) (hx : Past fileObject x) (hinv : ArmsInv L x)
    (he : (driverMachine.observe armsLog).exec .ioctl o e x = some (a, y)) :
    ArmsInv L y ∧ ArmsStep .ioctl x y ∧ Past fileObject y := by
  obtain ⟨hinv', hstep, hseen, hstamp⟩ := unfenced_step ho (fun fo h => by cases h) hinv he
  have hf := World.exec_frame (watched_exec he).1
  refine ⟨hinv', hstep, hstep.request.trans hx.request, fun fo hfo => ?_, fun fo hfo => ?_⟩
  · rw [hseen, hf.hist, Function.update_self]
    exact ⟨Nat.le_succ_of_le (hx.own fo hfo).1, (hx.own fo hfo).2⟩
  · rw [hstamp, hseen]
    exact hx.stamp fo hfo

theorem past_keeps {α : Type} {p : Drv α} (hp : p.Only unfencedFoot) :
    fencing.Keeps (driverMachine.observe armsLog) .ioctl (Past fileObject) p := by
  refine Keeps.of_within stable_past (fun _ _ _ hx _ => hx.pre) ?_ hp
  intro o ho x L e a y hx _ hinv _ he
  obtain ⟨hinv', hstep, hy⟩ := unfenced_past ho hx hinv he
  exact ⟨hinv', hstep, hy, trivial⟩

/-! ### The fence -/

/-- The gate decides by the stamp and the generation, and so by the arms. -/
theorem isStale_fencing :
    fencing.Triple (driverMachine.observe armsLog) .ioctl (Asking fileObject 0) (isStale fileObject)
      fun stale => Decided fileObject (stale = false) := by
  cases fileObject with
  | none => exact Triple.pure (stable_asking 0) fun x hx => ⟨hx.request, nofun⟩
  | some fo =>
    have hpre : ∀ {n : Nat} (o : Op), n ≠ 2 → ∀ x, Asking (some fo) n x → fencing.pre .ioctl o x := by
      intro n o hn x hx
      apply pre_of_length
      intro _ _
      rw [hx.hist]
      exact hn
    have hnext : ∀ {n : Nat} {o : Op} {e : Choice} {x y : World × Arms} {a : o.Ans} {L : Tid → Prop},
        unfencedFoot o → Asking (some fo) n x → ArmsInv L x →
        (driverMachine.observe armsLog).exec .ioctl o e x = some (a, y) →
        ArmsInv L y ∧ ArmsStep .ioctl x y ∧ Asking (some fo) (n + 1) y ∧ y.2 = x.2 ∧
          y.1.fileGen = x.1.fileGen := by
      intro n o e x y a L ho hx hinv he
      obtain ⟨hinv', hstep, hseen, hstamp⟩ := unfenced_step ho (fun fo h => by cases h) hinv he
      have hf := World.exec_frame (watched_exec he).1
      refine ⟨hinv', hstep, ⟨hstep.request.trans hx.request, ?_, fun fo' hfo => ?_⟩, hseen, hstamp⟩
      · rw [hf.hist, Function.update_self]
        exact congrArg (· + 1) hx.hist
      · exact (hx.exact fo' hfo).congr (by rw [hstamp]) (by rw [hseen]) (by rw [hseen])
    refine Triple.vis (I := fun g x => Asking (some fo) 1 x ∧ x.1.fileGen fo = g) (stable_asking 0)
      (fun x hx _ => hpre _ (by decide) x hx) ?_ fun g => ?_
    · intro x L e g y hx _ hinv _ he
      obtain ⟨hinv', hstep, hy, -, hstamp⟩ :=
        hnext (o := .fileGen fo) ⟨trivial, nofun, id⟩ hx hinv he
      obtain ⟨w₁, hs, -⟩ := World.exec_step (watched_exec he).1
      obtain ⟨rfl, -⟩ := Prod.mk.inj (Option.some.inj hs)
      exact ⟨hinv', hstep, hy, by rw [hstamp]⟩
    have hstable : fencing.Stable .ioctl fun x => Asking (some fo) 1 x ∧ x.1.fileGen fo = g := by
      intro x y hr h
      exact ⟨stable_asking 1 x y hr h.1, ((hr.own fo h.1.request).1).trans h.2⟩
    refine Triple.vis (I := fun c => Decided (some fo) (g = DeviceContext.resetGeneration c)) hstable
      (fun x hx _ => hpre _ (by decide) x hx.1) ?_ fun c => ?_
    · intro x L e c y hx _ hinv _ he
      obtain ⟨hinv', hstep, hy, hseen, hstamp⟩ :=
        hnext (o := .load) ⟨trivial, nofun, id⟩ hx.1 hinv he
      obtain ⟨w₁, hs, -⟩ := World.exec_step (watched_exec he).1
      obtain ⟨rfl, -⟩ := Prod.mk.inj (Option.some.inj hs)
      refine ⟨hinv', hstep, hy.request, fun fo' hfo => ?_⟩
      obtain rfl := Option.some.inj hfo
      refine ⟨hy.hist, hy.exact _ rfl, ?_⟩
      rw [hseen, (hx.1.exact fo rfl).iff hinv.bound, hx.2, hinv.generation]
    · refine Triple.pure (stable_decided _) fun x hx => ⟨hx.request, fun fo' hfo => ?_⟩
      obtain ⟨hlen, hexact, hown⟩ := hx.made fo' hfo
      exact ⟨hlen, hexact, hown.trans (by simp)⟩

/-! ### RESET_DEVICE -/

/-- Just past the fence the handle is not yet stamped again. -/
structure Bumped (fileObject : Option FileObject) (x : World × Arms) : Prop where
  request : x.1.req.fileObject = fileObject
  own : ∀ fo, fileObject = some fo → 3 ≤ (x.1.hist .ioctl).length ∧ x.2.Own fo

theorem stable_bumped : fencing.Stable .ioctl (Bumped fileObject) := by
  intro x y hr h
  refine ⟨hr.request.trans h.request, fun fo hfo => ?_⟩
  rw [hr.hist, hr.own_iff (h.request.trans hfo)]
  exact h.own fo hfo

theorem Bumped.pre {o : Op} {x : World × Arms} (h : Bumped fileObject x) :
    fencing.pre .ioctl o x := by
  apply pre_of_length
  intro fo hfo hlen
  have hlong := (h.own fo (h.request.symm.trans hfo)).1
  omega

/-- The fence counts one up, and the log notes the arm. -/
theorem fence_fencing :
    fencing.Triple (driverMachine.observe armsLog) .ioctl (Past fileObject) (locked .fence)
      fun _ => Bumped fileObject := by
  refine Triple.vis (I := fun _ => Bumped fileObject) stable_past (fun _ hx _ => hx.pre) ?_
    fun _ => Keeps.pure stable_bumped
  intro x L e a y hx hl hinv hfew he
  obtain ⟨he, -, hnote⟩ := watched_exec he
  have hf := World.exec_frame he
  have hseen : y.2 = { x.2 with arms := x.1.req.fileObject :: x.2.arms } := hnote
  have hstamp : y.1.fileGen = x.1.fileGen := hf.fileGen id
  have harms : y.2.arms = x.1.req.fileObject :: x.2.arms := by rw [hseen]
  have hcaptured : y.2.captured = x.2.captured := by rw [hseen]
  have hlen : y.2.arms.length = x.2.arms.length + 1 := by rw [harms, List.length_cons]
  have hown : ∀ fo, y.2.Own fo ↔ x.1.req.fileObject = some fo ∧ x.2.Own fo := by
    intro fo
    rw [hseen]
    exact Arms.own_cons (hinv.captured fo) _
  refine ⟨⟨?_, ?_, fun fo => ?_, fun fo hcr hio => ?_⟩, ⟨hf.fileObject, fun u hu => ?_,
    .inr ⟨rfl, harms⟩, fun _ _ => by rw [hcaptured], fun _ _ _ => by rw [hstamp]⟩,
    ⟨hf.fileObject.trans hx.request, fun fo hfo => ?_⟩⟩
  · rw [hlen]
    exact hfew rfl
  · have hbump : y.1.ctx.resetGeneration = x.1.ctx.resetGeneration + 1 := by
      rw [hf.ctx]
      rfl
    rw [hbump, hinv.generation, hlen, UInt64.ofNat_add]
    rfl
  · rw [hcaptured, hlen]
    exact Nat.le_succ_of_le (hinv.captured fo)
  · -- the arm is not the handle's, which falls behind
    rw [hf.fileObject] at hio
    have hexact := hinv.exact fo hcr hio
    have hnot : ¬ y.2.Own fo := fun h => hio ⟨hl, ((hown fo).mp h).1⟩
    refine ⟨fun h => absurd h hnot, fun _ => ?_⟩
    rw [hstamp, hlen]
    by_cases ho : x.2.Own fo
    · rw [hexact.own ho, UInt64.toNat_ofNat']
      exact Nat.lt_succ_of_le (Nat.mod_le _ _)
    · exact Nat.lt_succ_of_lt (hexact.stale ho)
  · rw [hf.hist, Function.update_of_ne hu]
  · obtain ⟨hlong, hbefore⟩ := hx.own fo hfo
    refine ⟨?_, (hown fo).mpr ⟨hx.request.trans hfo, hbefore⟩⟩
    rw [hf.hist, Function.update_self]
    exact Nat.le_succ_of_le hlong

/-- The handle that arms moves on with the generation. -/
theorem carryForward_fencing :
    fencing.Triple (driverMachine.observe armsLog) .ioctl (Bumped fileObject)
      (carryForward fileObject) fun _ => Past fileObject := by
  cases fileObject with
  | none => exact Triple.pure stable_bumped fun x hx => ⟨hx.request, nofun, nofun⟩
  | some fo =>
    have hlong : ∀ {o : Op} {e : Choice} {x y : World × Arms} {a : o.Ans}, Bumped (some fo) x →
        World.exec .ioctl o e x.1 = some (a, y.1) → y.2 = x.2 → Bumped (some fo) y := by
      intro o e x y a hx he hseen
      have hf := World.exec_frame he
      refine ⟨hf.fileObject.trans hx.request, fun fo' hfo => ?_⟩
      rw [hseen, hf.hist, Function.update_self]
      exact ⟨Nat.le_succ_of_le (hx.own fo' hfo).1, (hx.own fo' hfo).2⟩
    refine Triple.vis (I := fun c x => Bumped (some fo) x ∧
      DeviceContext.resetGeneration c = UInt64.ofNat x.2.arms.length) stable_bumped
      (fun _ hx _ => hx.pre) ?_ fun c => ?_
    · intro x L e c y hx _ hinv _ he
      obtain ⟨hinv', hstep, hseen, -⟩ :=
        unfenced_step (o := .load) ⟨trivial, nofun, id⟩ (fun _ h => by cases h) hinv he
      have he := (watched_exec he).1
      have hy := hlong hx he hseen
      obtain ⟨w₁, hs, -⟩ := World.exec_step he
      obtain ⟨rfl, -⟩ := Prod.mk.inj (Option.some.inj hs)
      exact ⟨hinv', hstep, hy, by rw [hseen]; exact hinv.generation⟩
    · refine Triple.vis (I := fun _ => Past (some fo)) ?_ (fun _ hx _ => hx.1.pre) ?_
        fun _ => Keeps.pure stable_past
      · refine stable_bumped.and fun x y hr h => ?_
        rw [hr.arms]
        exact h
      · intro x L e a y hx hl hinv _ he
        obtain ⟨he, -, hnote⟩ := watched_exec he
        have hseen : y.2 = x.2 := hnote
        have hf := World.exec_frame he
        have hctx : y.1.ctx = x.1.ctx := hf.ctx
        have hy := hlong hx.1 he hseen
        have hstamp : y.1.fileGen =
            Function.update x.1.fileGen fo (DeviceContext.resetGeneration c) := by
          obtain ⟨w₁, hs, hw⟩ := World.exec_step he
          obtain ⟨-, rfl⟩ := Prod.mk.inj (Option.some.inj hs)
          rw [hw]
          rfl
        have hother : ∀ fo', x.1.req.fileObject ≠ some fo' → y.1.fileGen fo' = x.1.fileGen fo' := by
          intro fo' hne
          rw [hstamp]
          refine Function.update_of_ne ?_ _ _
          rintro rfl
          exact hne hx.1.request
        refine ⟨⟨?_, ?_, ?_, fun fo' hcr hio => ?_⟩, ⟨hf.fileObject, fun u hu => ?_, .inl (by rw [hseen]),
          fun _ _ => by rw [hseen], fun fo' _ hne => hother fo' (hne rfl)⟩, hy.request, hy.own,
          fun fo' hfo => ?_⟩
        · rw [hseen]
          exact hinv.bound
        · rw [hctx, hseen]
          exact hinv.generation
        · rw [hseen]
          exact hinv.captured
        · rw [hf.fileObject] at hio
          exact (hinv.exact fo' hcr hio).congr (hother fo' fun h => hio ⟨hl, h⟩) (by rw [hseen])
            (by rw [hseen])
        · rw [hf.hist, Function.update_of_ne hu]
        · obtain rfl := Option.some.inj hfo
          rw [hstamp, Function.update_self, hseen]
          exact hx.2

/-- Everything but the fence, the stamps and the stores of the generation is outside the arm. -/
theorem unfencedFoot_of_plain {o : Op} (h : o.plain) : unfencedFoot o := by
  cases o <;> first | exact (h : False).elim | exact ⟨trivial, nofun, id⟩

theorem unfencedFoot_of_deviceFoot {l : Lock} {o : Op} (h : deviceFoot l o) : unfencedFoot o := by
  refine ⟨deviceFoot_keepsTables h, ?_, ?_⟩
  · rintro rfl
    exact h
  · cases o <;> first | exact id | exact (h : False).elim

theorem unfencedFoot_of_handleFoot {o : Op} (h : handleFoot fileObject o) : unfencedFoot o := by
  refine ⟨handleFoot_keepsTables h, ?_, ?_⟩
  · rintro rfl
    exact h
  · cases o <;> first | exact id | exact (h : False).elim

theorem unfencedFoot_of_hardwareFoot {o : Op} (h : hardwareFoot o) : unfencedFoot o := by
  refine ⟨hardwareFoot_keepsTables h, ?_, ?_⟩
  · rintro rfl
    cases h
  · cases o <;> first | exact id | exact (h : False).elim

theorem busScope_unfencedFoot : BusScope unfencedFoot where
  plain _ := unfencedFoot_of_plain
  setBusData _ _ _ := ⟨trivial, nofun, id⟩

theorem unfencedFoot_store {f : DeviceContext → DeviceContext} (h : RestrictFrame f) :
    unfencedFoot (.store f) := ⟨h.reset.table, nofun, id⟩

/-- The recovery goes through no fence. -/
theorem recoverReset_unfenced : recoverReset.Only unfencedFoot :=
  recoverReset_within busScope_unfencedFoot.restoring (fun _ => unfencedFoot_store fun _ => ⟨rfl, id⟩)
    (unfencedFoot_store fun _ => ⟨rfl, id⟩) fun _ _ => ⟨⟨trivial, nofun, id⟩, fun _ => ⟨trivial, nofun, id⟩⟩

theorem arcRegions_fencing : ArcRegions (driverMachine.observe armsLog) fencing .ioctl
    (Past fileObject) (Past fileObject) :=
  .ofFoot fencing_steady (fun _ => unfencedFoot_of_deviceFoot) past_keeps

/-- The arm keeps the stamp exact across the fence. -/
theorem armReset_fencing :
    fencing.Keeps (driverMachine.observe armsLog) .ioctl (Past fileObject) (armReset fileObject) := by
  have hif : ∀ {p : Drv Bool}, p.Only unfencedFoot →
      fencing.Triple (driverMachine.observe armsLog) .ioctl (Past fileObject) p
        fun b x => if b then Past fileObject x else Past fileObject x := by
    intro p hp
    refine Triple.weaken (past_keeps hp) (fun _ h => h) fun b x hx => ?_
    cases b <;> exact hx
  refine ArmOutline.armReset (P := Past fileObject) (S := Past fileObject) (K := Past fileObject)
    (F := Bumped fileObject) (C := Past fileObject) (N := Past fileObject) (V := Past fileObject) {
    steady := fencing_steady
    stable := ⟨stable_past, stable_past, stable_past⟩
    stops := fun x hx => hx.elim id id
    present := past_keeps (devicePresent_only busScope_unfencedFoot.restoring.silent)
    save := ?_
    marker := past_keeps (cfgRead_only busScope_unfencedFoot.restoring.silent _ _)
    mark := fun _ => hif (cfgWrite_only busScope_unfencedFoot (by decide) _)
    fence := fence_fencing
    carry := carryForward_fencing
    restrict := past_keeps ((within_perform _).mpr (unfencedFoot_store fun _ => ⟨rfl, id⟩))
    unverify := past_keeps ((within_perform _).mpr (unfencedFoot_store fun _ => ⟨rfl, nofun⟩))
    target := past_keeps (cfgWrite_only busScope_unfencedFoot (by decide) _)
    trigger := past_keeps ⟨⟨trivial, nofun, id⟩, fun _ _ => trivial⟩ }
  have hsave : fencing.Keeps (driverMachine.observe armsLog) .ioctl (Past fileObject)
      saveConfigOnce :=
    past_keeps (saveConfigOnce_only busScope_unfencedFoot.restoring.silent fun _ => unfencedFoot_store)
  refine Triple.weaken hsave (fun _ h => h) fun status x hx => ?_
  cases status.ok <;> exact hx

theorem ioctlResetDevice_fencing :
    fencing.Keeps (driverMachine.observe armsLog) .ioctl (Past fileObject)
      (ioctlResetDevice fileObject) := by
  refine arcRegions_fencing.ioctlResetDevice (B := Past fileObject) ?_
    arcRegions_fencing.acquire armReset_fencing
  have hbusy : fencing.Keeps (driverMachine.observe armsLog) .ioctl (Past fileObject)
      (locked .anyMapping) := past_keeps ((within_perform _).mpr ⟨trivial, nofun, id⟩)
  refine Triple.weaken hbusy (fun _ h => h) fun busy x hx => ?_
  cases busy <;> exact hx

/-! ### The dispatch -/

/-- What comes after the fence. -/
def dispatch (fileObject : Option FileObject) (code : Ioctl) : Drv Unit := do
  let c ← load
  if c.needsHwInit && !code.allowedRestricted then op (.complete .reinitializationNeeded 0)
  else
    let (status, bytesWritten) ← ioctlHandler fileObject code
    op (.complete status bytesWritten)

/-- The dispatcher is the gate, and what follows it. -/
theorem evtIoDeviceControl_eq (fileObject : Option FileObject) (code : Ioctl) :
    evtIoDeviceControl fileObject code = isStale fileObject >>= fun stale =>
      if stale then op (.complete .deviceRemoved 0) else dispatch fileObject code := rfl

theorem handler_fencing (code : Ioctl) :
    fencing.Keeps (driverMachine.observe armsLog) .ioctl (Past fileObject)
      (ioctlHandler fileObject code) := by
  by_cases hcode : code = .resetDevice
  · subst hcode
    exact Keeps.bind fencing_steady ioctlResetDevice_fencing fun _ => Keeps.pure stable_past
  · exact past_keeps (ioctlHandler_within (fun _ => unfencedFoot_of_handleFoot)
      (fun _ => unfencedFoot_of_deviceFoot) (fun _ => recoverReset_unfenced) hcode
      fun _ _ => unfencedFoot_of_deviceFoot)

/-- A request past the gate keeps the stamp exact. -/
theorem dispatch_fencing (code : Ioctl) :
    fencing.Triple (driverMachine.observe armsLog) .ioctl (Decided fileObject True)
      (dispatch fileObject code) fun _ => Past fileObject := by
  have hdone : ∀ s n, fencing.Keeps (driverMachine.observe armsLog) .ioctl (Past fileObject)
      (op (.complete s n)) :=
    fun _ _ => past_keeps ((within_perform _).mpr (unfencedFoot_of_plain trivial))
  refine Triple.vis (I := fun _ => Past fileObject) (stable_decided True) ?_ ?_ fun c =>
    Keeps.ite (hdone _ _) (Keeps.bind fencing_steady (handler_fencing code) fun _ => hdone _ _)
  · intro x hx _ _ _ fo hfo
    have hown := (hx.made fo (hx.request.symm.trans hfo)).2.2
    exact ⟨fun _ => hown.mpr trivial, fun _ => rfl⟩
  · intro x L e c y hx _ hinv _ he
    obtain ⟨hinv', hstep, hseen, hstamp⟩ :=
      unfenced_step (o := .load) (unfencedFoot_of_plain trivial) (fun _ h => by cases h) hinv he
    have hf := World.exec_frame (watched_exec he).1
    refine ⟨hinv', hstep, hstep.request.trans hx.request, fun fo hfo => ?_, fun fo hfo => ?_⟩ <;>
      obtain ⟨hlen, hexact, hown⟩ := hx.made fo hfo
    · rw [hseen, hf.hist, Function.update_self]
      exact ⟨Nat.succ_le_succ (Nat.le_of_eq hlen.symm), hown.mpr trivial⟩
    · rw [hstamp, hseen]
      exact hexact.own (hown.mpr trivial)

/-- So does a request as a whole, refused or not. -/
theorem evtIoDeviceControl_fencing (code : Ioctl) :
    fencing.Triple (driverMachine.observe armsLog) .ioctl (Asking fileObject 0)
      (evtIoDeviceControl fileObject code) fun _ x => ∀ fo, x.1.req.fileObject = some fo → Exact x fo := by
  rw [evtIoDeviceControl_eq]
  refine Triple.bind fencing_steady isStale_fencing fun stale => ?_
  cases stale with
  | false =>
    refine Triple.weaken (dispatch_fencing code) (fun x hx => ?_) fun _ x hx fo hfo => ?_
    · exact ⟨hx.request, fun fo hfo => ⟨(hx.made fo hfo).1, (hx.made fo hfo).2.1,
        (hx.made fo hfo).2.2.trans (by simp)⟩⟩
    · exact hx.exact (hx.request.symm.trans hfo)
  | true =>
    have hpost : fencing.Stable .ioctl fun x => x.1.req.fileObject = fileObject ∧
        ∀ fo, fileObject = some fo → Exact x fo := by
      intro x y hr h
      refine ⟨hr.request.trans h.1, fun fo hfo => ?_⟩
      obtain ⟨hgen, hcap⟩ := hr.own fo (h.1.trans hfo)
      exact (h.2 fo hfo).congr hgen hr.arms hcap
    refine Triple.vis (I := fun _ x => x.1.req.fileObject = fileObject ∧
      ∀ fo, fileObject = some fo → Exact x fo) (stable_decided _) ?_ ?_ fun _ =>
        Triple.pure hpost fun x hx fo hfo => hx.2 fo (hx.1.symm.trans hfo)
    · intro x hx _ _ _ fo hfo
      have hown := (hx.made fo (hx.request.symm.trans hfo)).2.2
      exact ⟨(fun h => by cases h), fun h => absurd (hown.mp h) (by simp)⟩
    · intro x L e a y hx _ hinv _ he
      obtain ⟨hinv', hstep, hseen, hstamp⟩ := unfenced_step (o := .complete .deviceRemoved 0)
        (unfencedFoot_of_plain trivial) (fun _ h => by cases h) hinv he
      refine ⟨hinv', hstep, hstep.request.trans hx.request, fun fo hfo => ?_⟩
      exact (hx.made fo hfo).2.1.congr (by rw [hstamp]) (by rw [hseen]) (by rw [hseen])

end Request

/-! ## The whole system -/

/-- Every call begins safely. -/
theorem begins_fencing {L : Tid → Prop} {t : Tid} {p : Drv Unit} {x y : World × Arms}
    (h : Begins L t p x.1 y.1) (hseen : y.2 = x.2) (hnl : ¬ L t) (hinv : ArmsInv L x)
    (hphases : Phases L x.1) :
    fencing.Safe (driverMachine.observe armsLog) t p (fun _ => fencing.post t) y := by
  have hbystander : ∀ {u : Tid} {q : Drv Unit}, u ≠ .ioctl → (∀ fo, u ≠ .create fo) →
      q.Only unfencedFoot → (∀ z, fencing.post u z) →
      fencing.Safe (driverMachine.observe armsLog) u q (fun _ => fencing.post u) y :=
    fun hu hcr hq hpost => Protocol.Safe.mono (bystander_keeps hu hcr hq y trivial) fun _ z _ => hpost z
  generalize hw' : y.1 = w' at h
  cases h with
  | ioctl r code p hhw hal hopen =>
    refine evtIoDeviceControl_fencing code y ⟨by rw [hw'], ?_, fun fo hfo => ?_⟩
    · rw [hw']
      simp [World.enter]
    · have hcr : ¬ L (.create fo) := by
        intro hl
        have hphase := hphases.opening fo hl
        rw [hopen fo hfo] at hphase
        cases hphase
      refine (hinv.exact fo hcr fun hio => hnl hio.1).congr ?_ (by rw [hseen]) (by rw [hseen])
      rw [hw']
      rfl
  | power cb p =>
    exact hbystander (by simp) (by simp) ((power_only cb).mono fun _ ho => unfencedFoot_of_deviceFoot (arcFoot_of_powerFoot ho))
      fun _ => trivial
  | prepare resources p =>
    refine hbystander (by simp) (by simp) (Within.mono (fun _ ho => ?_)
      ((evtDevicePrepareHardware_only resources).bind fun _ => trivial)) fun _ => trivial
    exact unfencedFoot_of_hardwareFoot (hardwareFoot_of_prepare ho)
  | release p =>
    exact hbystander (by simp) (by simp)
      (evtDeviceReleaseHardware_only.mono fun _ => unfencedFoot_of_hardwareFoot) fun _ => trivial
  | create fo p => exact evtDeviceFileCreate_fencing fo y trivial
  | cleanup fo p =>
    refine hbystander (by simp) (by simp) ((evtFileCleanup_only fo).mono fun o ho => ?_) fun _ => trivial
    cases o with
    | locked s =>
      obtain rfl : s = .sweepFile fo := ho
      exact ⟨trivial, by simp, id⟩
    | _ => first | exact ⟨trivial, (fun h => by cases h), id⟩ | exact (ho : False).elim

/-- The argument holds of every call against every other. -/
theorem fencing_sound : fencing.Sound (driver.observe armsLog) where
  toSteady := fencing_steady
  initial x hx := by
    obtain ⟨⟨buffer, hw⟩, hg⟩ := hx
    have hg : x.2 = {} := hg
    have hlen : x.2.arms.length = 0 := by rw [hg]; rfl
    have hcaptured : ∀ fo, x.2.captured fo = 0 := fun fo => by rw [hg]
    have hstamp : ∀ fo, x.1.fileGen fo = 0 := fun fo => by rw [hw]
    refine ⟨?_, ?_, fun fo => ?_, fun fo _ _ => ⟨fun _ => ?_, fun hn => absurd ?_ hn⟩⟩
    · rw [hlen]
      decide
    · rw [hlen, hw]
      rfl
    · rw [hcaptured]
      exact Nat.zero_le _
    · rw [hstamp, hlen]
      rfl
    · intro y hy
      rw [Arms.since, hlen, Nat.zero_sub, List.take_zero] at hy
      cases hy
  compat L t t' x y hl hl' hne _ hphases hg := by
    cases t' with
    | ioctl =>
      refine ⟨hg.request, hg.hist _ (Ne.symm hne), hg.arms.resolve_right fun h => hne h.1,
        fun fo hfo => ?_⟩
      have hcr : t ≠ .create fo := by
        rintro rfl
        exact hphases.idle fo hl ⟨hl', hfo⟩
      exact ⟨hg.stamp fo hcr fun h => absurd h hne, hg.captured fo hcr⟩
    | create fo =>
      have hasked : t = .ioctl → x.1.req.fileObject ≠ some fo := by
        rintro rfl hfo
        exact hphases.idle fo hl' ⟨hl, hfo⟩
      refine ⟨hg.stamp fo hne hasked, hg.captured fo hne, ?_⟩
      rcases hg.arms with harms | ⟨ht, harms⟩
      · exact ⟨[], harms, by simp⟩
      · refine ⟨[x.1.req.fileObject], harms, ?_⟩
        rw [List.mem_singleton]
        exact fun h => hasked ht h.symm
    | _ => trivial
  begins L t p x y hb hnl hinv hphases := by
    obtain ⟨hb, hseen⟩ := hb
    have hctx := begins_ctx hb
    have hstamp : y.1.fileGen = x.1.fileGen := by
      generalize y.1 = w' at hb
      cases hb <;> rfl
    have hhist : ∀ u, u ≠ t → y.1.hist u = x.1.hist u := fun u hu => begins_hist hb hu
    have hreq : t ≠ .ioctl → y.1.req = x.1.req := begins_req hb
    refine ⟨⟨?_, ?_, ?_, fun fo hcr hio => ?_⟩, fun t' ht' => ?_,
      begins_fencing hb hseen hnl hinv hphases⟩
    · rw [hseen]
      exact hinv.bound
    · rw [hctx, hseen]
      exact hinv.generation
    · rw [hseen]
      exact hinv.captured
    · refine (hinv.exact fo (fun h => hcr (.inr h)) fun h => hio ⟨.inr h.1, ?_⟩).congr
        (by rw [hstamp]) (by rw [hseen]) (by rw [hseen])
      rw [hreq fun ht => hnl (ht ▸ h.1)]
      exact h.2
    · have hne : t' ≠ t := fun h => hnl (h ▸ ht')
      cases t' with
      | ioctl =>
        exact ⟨by rw [hreq (Ne.symm hne)], hhist _ hne, by rw [hseen],
          fun fo _ => ⟨by rw [hstamp], by rw [hseen]⟩⟩
      | create fo => exact ⟨by rw [hstamp], by rw [hseen], [], by rw [hseen]; rfl, by simp⟩
      | _ => trivial
  ends L t x y he hl hinv hphases hpost := by
    obtain ⟨he, hseen⟩ := he
    have hleave : y.1 = x.1.leave t := he
    have hctx : y.1.ctx = x.1.ctx := by rw [hleave, World.leave_ctx]
    have hsame : y.1.fileGen = x.1.fileGen ∧ y.1.req = x.1.req ∧ y.1.hist = x.1.hist := by
      rw [hleave]
      cases t <;> exact ⟨rfl, rfl, rfl⟩
    obtain ⟨hstamp, hreq, hhist⟩ := hsame
    refine ⟨⟨?_, ?_, ?_, fun fo hcr hio => ?_⟩, fun t' _ => ?_⟩
    · rw [hseen]
      exact hinv.bound
    · rw [hctx, hseen]
      exact hinv.generation
    · rw [hseen]
      exact hinv.captured
    · have hexact : Exact x fo := by
        by_cases htc : t = .create fo
        · subst htc
          exact hpost
        · have hcr' : ¬ L (.create fo) := fun h => hcr ⟨Ne.symm htc, h⟩
          by_cases hti : t = .ioctl ∧ x.1.req.fileObject = some fo
          · obtain ⟨rfl, hfo⟩ := hti
            exact hpost fo hfo
          · refine hinv.exact fo hcr' fun h => hio ⟨⟨fun ht => hti ⟨ht.symm, h.2⟩, h.1⟩, ?_⟩
            rw [hreq]
            exact h.2
      exact hexact.congr (by rw [hstamp]) (by rw [hseen]) (by rw [hseen])
    · cases t' with
      | ioctl =>
        exact ⟨by rw [hreq], by rw [hhist], by rw [hseen], fun fo _ => ⟨by rw [hstamp], by rw [hseen]⟩⟩
      | create fo => exact ⟨by rw [hstamp], by rw [hseen], [], by rw [hseen]; rfl, by simp⟩
      | _ => trivial
  env L x y he hinv _ := by
    have hsame : y.1.ctx = x.1.ctx ∧ y.1.fileGen = x.1.fileGen ∧ y.1.req = x.1.req ∧
        y.1.hist = x.1.hist ∧ y.2 = x.2 := by
      rcases he with ⟨he, hseen⟩ | ⟨-, n, hdrift⟩
      · refine ⟨environment_ctx he, ?_, ?_, ?_, hseen⟩ <;> generalize y.1 = w' at he <;> cases he <;> rfl
      · cases hdrift
    obtain ⟨hctx, hstamp, hreq, hhist, hseen⟩ := hsame
    refine ⟨⟨?_, ?_, ?_, fun fo hcr hio => ?_⟩, fun t' _ => ?_⟩
    · rw [hseen]
      exact hinv.bound
    · rw [hctx, hseen]
      exact hinv.generation
    · rw [hseen]
      exact hinv.captured
    · rw [hreq] at hio
      exact (hinv.exact fo hcr hio).congr (by rw [hstamp]) (by rw [hseen]) (by rw [hseen])
    · cases t' with
      | ioctl =>
        exact ⟨by rw [hreq], by rw [hhist], by rw [hseen], fun fo _ => ⟨by rw [hstamp], by rw [hseen]⟩⟩
      | create fo => exact ⟨by rw [hstamp], by rw [hseen], [], by rw [hseen]; rfl, by simp⟩
      | _ => trivial

theorem reach_phases {c : DriverConfig} (h : Reach driver anyStep c) : Phases c.live c.world :=
  (phases_sound.good (show Reach driver phases.allow c from h)).inv

theorem fencing_known (c : WatchedConfig Arms) (h : Reach (driver.observe armsLog) fewArms c) :
    fencing.known c.live c.world := reach_phases (reach_unwatched h)

/-! ## What the fence lets through -/

/-- A step only adds arms. -/
theorem step_arms {c c' : WatchedConfig Arms} (h : Step (driver.observe armsLog) fewArms c c') :
    ∃ xs, c'.world.2.arms = xs ++ c.world.2.arms := by
  cases h with
  | begins _ hb => exact ⟨[], congrArg Arms.arms hb.2⟩
  | @exec t o k e a y _ _ he =>
    obtain ⟨-, -, hnote⟩ := watched_exec he
    rw [Config.set_world, hnote]
    by_cases hfence : o = .locked .fence
    · subst hfence
      exact ⟨[c.world.1.req.fileObject], rfl⟩
    · refine ⟨[], ?_⟩
      cases o with
      | load => cases t <;> rfl
      | locked s =>
        cases s with
        | fence => exact absurd rfl hfence
        | _ => rfl
      | _ => rfl
  | ends _ he => exact ⟨[], congrArg Arms.arms he.2⟩
  | env he =>
    rcases he with ⟨-, hseen⟩ | ⟨-, n, hdrift⟩
    · exact ⟨[], congrArg Arms.arms hseen⟩
    · cases hdrift

/-- The log of the arms only grows. -/
theorem run_arms {c c' : WatchedConfig Arms} (h : Run (driver.observe armsLog) fewArms c c') :
    ∃ xs, c'.world.2.arms = xs ++ c.world.2.arms := by
  induction h with
  | refl => exact ⟨[], rfl⟩
  | tail _ hs ih =>
    obtain ⟨xs, hxs⟩ := ih
    obtain ⟨ys, hys⟩ := step_arms hs
    exact ⟨ys ++ xs, by rw [hys, hxs, List.append_assoc]⟩

/-- Another's arm stays another's: a handle that has not read the generation again never
comes to own every arm since. -/
theorem own_of_run {c c' : WatchedConfig Arms} (h : Run (driver.observe armsLog) fewArms c c')
    {fo : FileObject} (hle : c.world.2.captured fo ≤ c.world.2.arms.length)
    (hcaptured : c'.world.2.captured fo = c.world.2.captured fo) (hown : c'.world.2.Own fo) :
    c.world.2.Own fo := by
  obtain ⟨xs, hxs⟩ := run_arms h
  have hsince : c'.world.2.since fo = xs ++ c.world.2.since fo := by
    have happ := Arms.since_append hle xs
    simp only [Arms.since] at happ ⊢
    rw [hxs, hcaptured, happ]
  intro y hy
  exact hown y (hsince ▸ List.mem_append_right xs hy)

/-- After the two reads of the fence, the request of a handle is at the dispatch or at its
rejection. -/
theorem fence_reads {w : World} {p : Drv Unit} {fo : FileObject} (h : w.InCall .ioctl p)
    (hfo : w.req.fileObject = some fo) (hlen : (w.hist .ioctl).length = 2) :
    ∃ (code : Ioctl) (c : DeviceContext) (g : UInt64),
      w.hist .ioctl = [⟨.load, c⟩, ⟨.fileGen fo, g⟩] ∧
      (p = dispatch (some fo) code ∨ p = op (.complete .deviceRemoved 0)) := by
  obtain ⟨q, ⟨code, rfl⟩, hleads⟩ := h
  obtain ⟨second, first, hhist⟩ := List.length_eq_two.mp hlen
  rw [hfo, hhist] at hleads
  obtain ⟨k, hbefore, rfl⟩ := leads_cons hleads
  obtain ⟨k', hnothing, hk⟩ := leads_cons hbefore
  have hstart := leads_nil hnothing
  rw [evtIoDeviceControl_eq] at hstart
  obtain ⟨o, g⟩ := first
  obtain ⟨rfl, hk'⟩ := Prog.vis.inj hstart
  obtain rfl := eq_of_heq hk'
  obtain ⟨o, c⟩ := second
  obtain ⟨rfl, hk⟩ := Prog.vis.inj hk
  obtain rfl := eq_of_heq hk
  refine ⟨code, c, g, hhist, ?_⟩
  -- the verdict on the two answers
  show (if decide (g ≠ DeviceContext.resetGeneration c) = true then
      op (.complete .deviceRemoved 0) else dispatch (some fo) code) = dispatch (some fo) code ∨
    (if decide (g ≠ DeviceContext.resetGeneration c) = true then
      op (.complete .deviceRemoved 0) else dispatch (some fo) code) = op (.complete .deviceRemoved 0)
  split
  · exact .inr rfl
  · exact .inl rfl

/-- The fence decides by its two reads alone, and lets a request through exactly when every
reset armed since its handle read the generation was issued through that handle. A rejected
request completes with STATUS_DEVICE_REMOVED and leaves everything but its own history as it
was. And a handle past which another has armed a reset is never let through again, unless
the handle itself reads the generation anew. -/
theorem fence_exact {c : WatchedConfig Arms} (h : Reach (driver.observe armsLog) fewArms c)
    (fo : FileObject) :
    (∀ p, c.pool .ioctl = some p → c.world.1.req.fileObject = some fo →
      (c.world.1.hist .ioctl).length = 2 →
        (∃ d g, c.world.1.hist .ioctl = [⟨.load, d⟩, ⟨.fileGen fo, g⟩]) ∧
        ((∃ code, p = dispatch (some fo) code) ↔ c.world.2.Own fo) ∧
        (¬ c.world.2.Own fo → p = op (.complete .deviceRemoved 0) ∧
          ∀ e a y, (driver.observe armsLog).exec .ioctl (.complete .deviceRemoved 0) e c.world =
            some (a, y) →
              y = (c.world.1.record .ioctl ⟨.complete .deviceRemoved 0, a⟩, c.world.2))) ∧
    ∀ c', Run (driver.observe armsLog) fewArms c c' →
      c'.world.2.captured fo = c.world.2.captured fo → ¬ c.world.2.Own fo → ¬ c'.world.2.Own fo := by
  have hgood := fencing_sound.good h fencing_known
  refine ⟨fun p hp hfo hlen => ?_, fun c' hrun hcap hn hown =>
    hn (own_of_run hrun (hgood.inv.captured fo) hcap hown)⟩
  have hcall := reach_inCall (reach_unwatched h) hp
  obtain ⟨code, d, g, hreads, hp'⟩ := fence_reads hcall hfo hlen
  have hpre : ∀ {o : Op} {k : o.Ans → Drv Unit}, c.pool .ioctl = some (.vis o k) →
      o ≠ .locked .fence → (o = .load ↔ c.world.2.Own fo) := by
    intro o k hvis hne
    have hallow : fewArms .ioctl o c.world := fun heq => absurd heq hne
    exact fencing_sound.about h hvis hallow fencing_known rfl hlen fo hfo
  refine ⟨⟨d, g, hreads⟩, ⟨?_, fun hown => ?_⟩, fun hn => ⟨?_, fun e a y he => ?_⟩⟩
  · rintro ⟨code', rfl⟩
    exact (hpre hp nofun).mp rfl
  · rcases hp' with rfl | rfl
    · exact ⟨code, rfl⟩
    · cases (hpre hp nofun).mpr hown
  · rcases hp' with rfl | rfl
    · exact absurd ((hpre hp nofun).mp rfl) hn
    · rfl
  · obtain ⟨he, -, hseen⟩ := watched_exec he
    obtain ⟨w₁, hs, hy⟩ := World.exec_step he
    obtain ⟨-, rfl⟩ := Prod.mk.inj (Option.some.inj hs)
    exact Prod.ext hy hseen

/-- Handle 2 arms a reset, and handle 1 asks for the device info. -/
def rejectedRun : List Move :=
  overtakingRun ++ [.ops .ioctl ([.count 4] ++ plainOps 2), .ends .ioctl,
    .ioctl { fileObject := some 1 } .getDeviceInfo 1, .ops .ioctl (plainOps 2)]

/-- Handle 2 has armed, and handle 1 is refused. -/
theorem fence_exact_rejected :
    ∃ c : WatchedConfig Arms, Reach (driver.observe armsLog) fewArms c ∧ c.world.2.arms = [some 2] ∧
      c.pool .ioctl = some (op (.complete .deviceRemoved 0)) := by
  have hplay : (WatchedConfig.play armsLog (fun _ _ x => decide (x.2.arms.length < 10))
      (rejectedRun.map .driver) (idle.watched {})).any (fun c =>
        (c.pool .ioctl).isSome && (c.world.2.arms == [some 2] && (!decide (c.world.2.Own 1) &&
          (c.world.1.req.fileObject == some 1 && (c.world.1.hist .ioctl).length == 2)))) = true := by
    decide +kernel
  have hfew : ∀ (t : Tid) (o : Op) (x : World × Arms), decide (x.2.arms.length < 10) = true →
      fewArms t o x := by
    intro t o x hok _
    have hlt := of_decide_eq_true hok
    omega
  obtain ⟨c, hreach, hend⟩ := WatchedConfig.exists_reach hfew rfl hplay
  simp only [Bool.and_eq_true, Option.isSome_iff_exists, beq_iff_eq, Bool.not_eq_true',
    decide_eq_false_iff_not] at hend
  obtain ⟨⟨p, hp⟩, harms, hown, hfo, hlen⟩ := hend
  refine ⟨c, hreach, harms, ?_⟩
  rw [hp, (((fence_exact hreach 1).1 p hp hfo hlen).2.2 hown).1]

end TtWind
