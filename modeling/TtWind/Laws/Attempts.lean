import TtWind.Laws.Guarded
import TtWind.Laws.Iatu
import TtWind.Laws.Schedule

/-!
# What SYSMEM_STATUS reports of the latest attempt

The outcome of each tier, the stage of the arm and the loopback's probes are written one by one,
by an allocation that stops at the first tier it obtains and by an arm that stops at the first
check that fails, over what earlier attempts left there. So the report is of the latest
allocation as long as none before it went on to a further tier, and of the latest arm as long
as no arm that stops before its loopback comes after one that reached it. That the stage is
the one where the arm stopped is proved of its history (`attempt_stage`, in `TtWind.Laws.Stages`).
-/

set_option autoImplicit false

namespace TtWind

open TtWind.Effect TtWind.Effect.Prog TtWind.Effect.Protocol

/-! ## What happened -/

/-- What is noted of the allocations and the arms. -/
structure Attempts where
  /-- The outcomes of the latest allocation, tier by tier. -/
  outcomes : List Bool := []
  /-- Its buffer is not freed yet. -/
  held : Bool := false
  /-- How many tiers some allocation has tried. -/
  deepest : Nat := 0
  /-- Some arm has written its probes. -/
  reached : Bool := false

/-- A tier of this size is tried; an allocation begins with the first. -/
def Attempts.tried (g : Attempts) (size : UInt64) (obtained : Bool) : Attempts :=
  let before := if sysmemTiers.head? = some size then [] else g.outcomes
  { g with outcomes := before ++ [obtained], held := obtained, deepest := max g.deepest (before.length + 1) }

def attemptLog : Observer DriverSig Tid World Attempts where
  initial _ g := g = {}
  note
    | _, .allocContiguous size _ _, va, _, g => g.tried size (Option.isSome va)
    | _, .freeContiguous _ _, _, _, g => { g with held := false }
    | _, .bufferWrite _ _, _, _, g => { g with reached := true }
    | _, _, _, _, g => g

/-- What the report is made of, and what happened. -/
structure Report where
  results : Nat → TierResult
  size : UInt64
  va : IoPtr
  stage : SysmemStage
  probes : Nat → SysmemProbe
  seen : Attempts

def DeviceContext.report (c : DeviceContext) (g : Attempts) : Report :=
  ⟨c.sysmemTierResult, c.sysmemSize, c.sysmemVa, c.sysmemStage, c.sysmemProbes, g⟩

/-- What is reported in a world. -/
def report (x : World × Attempts) : Report := x.1.ctx.report x.2

/-! ## What the report should say -/

/-- The tiers before the one obtained failed, it is ok and its size is the buffer's, and those
after it were not tried; or all of them failed. -/
def Report.TiersTell (v : Report) : Prop :=
  v.seen.outcomes = [] ∨
    (v.seen.outcomes = List.replicate sysmemTiers.length false ∧
      ∀ i < sysmemTiers.length, v.results i = .failed) ∨
    ∃ k size, v.seen.outcomes = List.replicate k false ++ [true] ∧ sysmemTiers[k]? = some size ∧
      (∀ i < k, v.results i = .failed) ∧ v.results k = .ok ∧
      (∀ i, k < i → v.results i = .notTried) ∧ (v.seen.held = true → v.size = size)

/-- The tiers tell of the allocation, and until it is freed its buffer is there. -/
structure Report.TiersKnown (v : Report) : Prop where
  tell : v.TiersTell
  there : v.seen.held = true → v.va ≠ none

/-- Both words of probe `i` came back as they were written. -/
def SysmemProbe.Matches (i : Nat) (p : SysmemProbe) : Prop :=
  p.wrote0 = probeMagic i ∧ p.wrote1 = ~~~probeMagic i ∧ p.read0 = p.wrote0 ∧ p.read1 = p.wrote1

/-- The stages before the loopback. -/
def SysmemStage.early : SysmemStage → Bool
  | .loopback | .verified => false
  | _ => true

/-- The number of probes. -/
def probeCount : Nat := 3

/-- What the probes should be at each stage the attempt can have ended in. -/
def Report.ProbesTell (v : Report) : Prop :=
  match v.stage with
  | .verified => ∀ i < probeCount, (v.probes i).Matches i
  | .loopback => ∃ k < probeCount, (∀ i < k, (v.probes i).Matches i) ∧ ¬ (v.probes k).Matches k ∧
      ∀ i, k < i → v.probes i = {}
  | _ => ∀ i, v.probes i = {}

/-- Once a tier is obtained, no allocation has tried one after it; and where an arm that stops
before its loopback is about to give up ArcLock, none has written its probes. -/
def attemptsApart (t : Tid) (o : Op) (x : World × Attempts) : Prop :=
  (t = .hardware → x.2.outcomes.getLast? = some true → x.2.deepest ≤ x.2.outcomes.length) ∧
    (o = .release .arc → x.1.ctx.sysmemStage.early = true → x.2.reached = false)

/-! ## The invariant -/

/-- The probes are those of the attempt, if it reached its loopback. -/
def Report.Told (v : Report) : Prop := v.stage.early = false → v.ProbesTell

/-- What holds of the report, by who is live and who holds ArcLock. -/
structure ReportInv (L : Tid → Prop) (l : Option Tid) (v : Report) : Prop where
  untried : ∀ i, v.seen.deepest ≤ i → v.results i = .notTried
  unreached : v.seen.reached = false → ∀ i, v.probes i = {}
  tiers : ¬ L .hardware → v.TiersKnown
  probes : l = none → v.ProbesTell
  left : ∀ t, t.Drives → ¬ L t → l = some t → v.Told

/-- The report is written by arms, under ArcLock, and by the hardware callbacks. -/
def reported : Guarded Attempts Report where
  log := attemptLog
  view := DeviceContext.report
  allow := attemptsApart
  inv := ReportInv
  post t l v := t.Drives → (l = some t → v.Told) ∧ (t = .hardware → v.TiersKnown)

/-- An attempt that stopped early tells of its probes if none was ever written. -/
theorem probesTell_of_early {v : Report} (hearly : v.stage.early = true)
    (hblank : ∀ i, v.probes i = {}) : v.ProbesTell := by
  unfold Report.ProbesTell
  cases hstage : v.stage with
  | loopback | verified =>
    rw [hstage] at hearly
    cases hearly
  | _ => exact hblank

/-- Operations that write no part of the report. -/
def reportFoot : Op → Prop
  | .store f => ReportFrame f
  | .allocContiguous _ _ _ | .freeContiguous _ _ | .bufferWrite _ _ => False
  | _ => True

theorem spares_report {o : Op} (ho : reportFoot o) : reported.Spares o := by
  refine ⟨fun f hf c g => ?_, fun s hs c g => ?_, fun t a w c g => ?_⟩
  · subst hf
    obtain ⟨⟨hres, hsize, hva⟩, hstage, hprobes⟩ := ho c
    show (f c).report g = c.report g
    rw [DeviceContext.report, hres, hsize, hva, hstage, hprobes, DeviceContext.report]
  · show (s.run c).2.report g = c.report g
    rw [Section.run_frame c s]
    rfl
  · show c.report (attemptLog.note t o a w g) = c.report g
    cases o with
    | allocContiguous | freeContiguous | bufferWrite => exact (ho : False).elim
    | _ => rfl

/-- Outside the programs that write the report: what the thread owes if it holds ArcLock, and
what a hardware callback knows of the tiers. -/
structure Owes (t : Tid) (Φ : Report → Prop) (x : World × Attempts) : Prop where
  told : x.1.arcLock = some t → (report x).Told
  state : t = .hardware → Φ (report x)

section Step

variable {t : Tid} {Φ : Report → Prop} {α : Type}

theorem stable_owes (ht : t.Drives) : reported.protocol.Stable t (Owes t Φ) := by
  intro x y hr h
  have hkept : reported.Kept t x y := hr ht
  refine ⟨fun hlock => ?_, fun hhw => ?_⟩
  · have hlock := hkept.lock.mp hlock
    have hview : report y = report x := hkept.view (.inl hlock)
    rw [hview]
    exact h.told hlock
  · have hview : report y = report x := hkept.view (.inr hhw)
    rw [hview]
    exact h.state hhw

/-- A step that writes no part of the report. Taking ArcLock finds the report settled, and
giving it up leaves it so. -/
theorem spares_step {o : Op} {e : Choice} {x y : World × Attempts} {a : o.Ans} {L : Tid → Prop}
    (ho : reportFoot o) (hx : Owes t Φ x) (hl : L t) (hinv : reported.protocol.inv L x)
    (ha : reported.protocol.allow t o x)
    (he : (driverMachine.observe attemptLog).exec t o e x = some (a, y)) :
    reported.protocol.inv L y ∧ reported.protocol.guar t x y ∧ Owes t Φ y := by
  have hview : report y = report x := Guarded.of_spares (spares_report ho) he
  have hguar : reported.protocol.guar t x y := Guarded.guar_of_exec ha he fun _ => hview
  have hinv : ReportInv L x.1.arcLock (report x) := hinv
  obtain ⟨hexec, -, -⟩ := watched_exec he
  have hsame : ReportInv L y.1.arcLock (report x) ∧ (y.1.arcLock = some t → (report x).Told) := by
    by_cases hm : o.movesLock .arc
    · obtain ⟨w₁, hs, hw⟩ := World.exec_step hexec
      cases o with
      | acquire l =>
        obtain rfl : l = .arc := hm
        simp only [World.step, Option.ite_none_right_eq_some, Option.some.injEq, Prod.mk.injEq] at hs
        obtain ⟨hfree, -, rfl⟩ := hs
        have hfree : x.1.arcLock = none := hfree
        have hlock : y.1.arcLock = some t := by rw [hw]; rfl
        refine ⟨⟨hinv.untried, hinv.unreached, hinv.tiers, fun h => ?_, fun u _ hu h => ?_⟩,
          fun _ _ => hinv.probes hfree⟩
        · rw [hlock] at h
          cases h
        · obtain rfl := Option.some.inj (hlock.symm.trans h)
          exact absurd hl hu
      | release l =>
        obtain rfl : l = .arc := hm
        simp only [World.step, Option.ite_none_right_eq_some, Option.some.injEq, Prod.mk.injEq] at hs
        obtain ⟨hheld, -, rfl⟩ := hs
        have hheld : x.1.arcLock = some t := hheld
        have hlock : y.1.arcLock = none := by rw [hw]; rfl
        refine ⟨⟨hinv.untried, hinv.unreached, hinv.tiers, fun _ => ?_, fun u _ _ h => ?_⟩, fun h => ?_⟩
        · cases hearly : (report x).stage.early with
          | true => exact probesTell_of_early hearly (hinv.unreached (ha.2.2 rfl hearly))
          | false => exact hx.told hheld hearly
        · rw [hlock] at h
          cases h
        · rw [hlock] at h
          cases h
      | _ => exact hm.elim
    · rw [(World.exec_frame hexec).arcLock hm]
      exact ⟨hinv, hx.told⟩
  refine ⟨?_, hguar, ?_, fun hhw => ?_⟩
  · show ReportInv L y.1.arcLock (report y)
    rw [hview]
    exact hsame.1
  · rw [hview]
    exact hsame.2
  · rw [hview]
    exact hx.state hhw

/-- The other threads write no part of the report, and leave ArcLock. -/
theorem bystand_report {p : Drv α} (hp : p.Only fun o : Op => reportFoot o ∧ ¬ o.movesLock .arc) :
    reported.protocol.Keeps (driverMachine.observe attemptLog) t (fun _ => True) p := by
  refine Keeps.of_within (J := fun _ _ => True) (Stable.true t) (fun _ _ _ _ _ => trivial) ?_ hp
  intro o ho x L e a y _ _ hinv ha he
  have hview : report y = report x := Guarded.of_spares (spares_report ho.1) he
  refine ⟨?_, Guarded.guar_of_exec ha he fun _ => hview, trivial, trivial⟩
  show ReportInv L y.1.arcLock (report y)
  rw [hview, (World.exec_frame (watched_exec he).1).arcLock ho.2]
  exact hinv

theorem owes_keeps (ht : t.Drives) {p : Drv α} (hp : p.Only reportFoot) :
    reported.protocol.Keeps (driverMachine.observe attemptLog) t (Owes t Φ) p := by
  refine Keeps.of_within (J := fun _ _ => True) (stable_owes ht) (fun _ _ _ _ _ => trivial) ?_ hp
  intro o ho x L e a y hx hl hinv ha he
  obtain ⟨hinv', hguar, howes⟩ := spares_step ho hx hl hinv ha he
  exact ⟨hinv', hguar, howes, trivial⟩

end Step

/-! ## The arm -/

section Arm

variable {t : Tid} {α : Type} {Φ : Report → Prop} {Q : α → World × Attempts → Prop}

/-- What an arm writes leaves the tiers, and is its own business until it gives up ArcLock. -/
theorem ReportInv.armed {L : Tid → Prop} {v : Report} (h : ReportInv L (some t) v) (hl : L t)
    {stage : SysmemStage} {probes : Nat → SysmemProbe} {reached : Bool}
    (hblank : reached = false → ∀ i, probes i = {}) :
    ReportInv L (some t) { v with stage, probes, seen := { v.seen with reached } } := by
  refine ⟨h.untried, hblank, fun hn => ⟨(h.tiers hn).tell, (h.tiers hn).there⟩, nofun, fun u _ hu hlock => ?_⟩
  obtain rfl := Option.some.inj hlock
  exact absurd hl hu

theorem arm_stage {s : SysmemStage} {k : Unit → Drv α} {Ψ : Report → Prop} (ht : t.Works)
    (hstep : ∀ v, Φ v → Ψ { v with stage := s })
    (hk : reported.protocol.Triple (driverMachine.observe attemptLog) t (reported.Held t Ψ) (k ()) Q) :
    reported.protocol.Triple (driverMachine.observe attemptLog) t (reported.Held t Φ)
      (setStage s >>= k) Q := by
  refine Guarded.held_store (A := reported) (Ψ := Ψ) ht (fun _ _ _ => rfl) (fun L c g hl hx hinv => ?_) hk
  have hinv : ReportInv L (some t) (c.report g) := hinv
  exact ⟨hstep _ hx, hinv.armed hl hinv.unreached⟩

/-- A store of the probes, which blanks them or comes after some were written. -/
theorem arm_probes {g : (Nat → SysmemProbe) → Nat → SysmemProbe} {k : Unit → Drv α}
    {Ψ : Report → Prop} (ht : t.Works)
    (hstep : ∀ v, Φ v → Ψ { v with probes := g v.probes } ∧
      (v.seen.reached = false → ∀ i, g v.probes i = {}))
    (hk : reported.protocol.Triple (driverMachine.observe attemptLog) t (reported.Held t Ψ) (k ()) Q) :
    reported.protocol.Triple (driverMachine.observe attemptLog) t (reported.Held t Φ)
      (store (fun c => { c with sysmemProbes := g c.sysmemProbes }) >>= k) Q := by
  refine Guarded.held_store (A := reported) (Ψ := Ψ) ht (fun _ _ _ => rfl) (fun L c d hl hx hinv => ?_) hk
  have hinv : ReportInv L (some t) (c.report d) := hinv
  obtain ⟨hnext, hblank⟩ := hstep _ hx
  exact ⟨hnext, hinv.armed hl hblank⟩

/-- A pattern word is written. -/
theorem arm_write {off : Nat} {word : UInt32} {k : Unit → Drv α} {Ψ : Report → Prop} (ht : t.Works)
    (hstep : ∀ v, Φ v → Ψ { v with seen := { v.seen with reached := true } })
    (hk : reported.protocol.Triple (driverMachine.observe attemptLog) t (reported.Held t Ψ) (k ()) Q) :
    reported.protocol.Triple (driverMachine.observe attemptLog) t (reported.Held t Φ)
      (op (.bufferWrite off word) >>= k) Q := by
  refine Guarded.held_vis (A := reported) (Ψ := fun _ => Ψ) ht id (fun x L e a y hx hl hinv _ he => ?_)
    fun _ => hk
  obtain ⟨hexec, -, hnote⟩ := watched_exec he
  have hctx : y.1.ctx = x.1.ctx := (World.exec_frame hexec).ctx
  have hview : report y = { report x with seen := { x.2 with reached := true } } := by
    rw [report, hctx, hnote]
    rfl
  have hinv : ReportInv L (some t) (report x) := hinv
  show Ψ (report y) ∧ ReportInv L (some t) (report y)
  rw [hview]
  exact ⟨hstep _ hx.state, hinv.armed hl nofun⟩

/-- Code under ArcLock that writes no part of the report. -/
theorem arm_keeps (ht : t.Works) {p : Drv α} (hp : p.Only fun o : Op => reportFoot o ∧ ¬ o.movesLock .arc) :
    reported.protocol.Keeps (driverMachine.observe attemptLog) t (reported.Held t Φ) p :=
  Guarded.held_keeps ht (hp.mono fun _ ho => ⟨spares_report ho.1, ho.2⟩)

/-- The same, and pattern words. -/
def patternFoot : Op → Prop
  | .bufferWrite _ _ => True
  | o => reportFoot o ∧ ¬ o.movesLock .arc

theorem arm_writes (ht : t.Works) (hstep : ∀ v, Φ v → Φ { v with seen := { v.seen with reached := true } })
    {p : Drv α} (hp : p.Only patternFoot) :
    reported.protocol.Keeps (driverMachine.observe attemptLog) t (reported.Held t Φ) p := by
  induction p with
  | pure a => exact Keeps.pure (Guarded.stable_held ht)
  | vis o k ih =>
    have hrest := fun a => ih a (hp.2 a trivial)
    cases o with
    | bufferWrite off word => exact arm_write ht hstep (hrest ())
    | _ => exact Guarded.held_spares ht (spares_report hp.1.1) hp.1.2 hrest

/-! ### The loopback -/

/-- The loopback has come to probe `i`: those before it match, the others are blank. -/
structure Matched (i : Nat) (v : Report) : Prop where
  stage : v.stage = .loopback
  reached : v.seen.reached = true
  before : ∀ j < i, (v.probes j).Matches j
  after : ∀ j, i ≤ j → v.probes j = {}

/-- How the loopback ended. -/
structure Looped (status : NtStatus) (v : Report) : Prop where
  stage : v.stage = .loopback
  all : status.ok = true → ∀ i < probeCount, (v.probes i).Matches i
  some : ¬ status.ok → v.ProbesTell

/-- Probe `i` was written, and its first word read. -/
structure Probing (i : Nat) (v0 : UInt32) (v : Report) : Prop where
  stage : v.stage = .loopback
  reached : v.seen.reached = true
  before : ∀ j < i, (v.probes j).Matches j
  after : ∀ j, i < j → v.probes j = {}
  wrote0 : (v.probes i).wrote0 = probeMagic i
  wrote1 : (v.probes i).wrote1 = ~~~probeMagic i
  read0 : (v.probes i).read0 = v0

theorem Matched.probe {i : Nat} {v : Report} (h : Matched i v) (off : UInt64) (v0 : UInt32) :
    Probing i v0 { v with probes := Function.update v.probes i { v.probes i with
      offset := off, wrote0 := probeMagic i, wrote1 := ~~~probeMagic i, read0 := v0 } } := by
  refine ⟨h.stage, h.reached, fun j hj => ?_, fun j hj => ?_, ?_, ?_, ?_⟩
  · show (Function.update v.probes i _ j).Matches j
    rw [Function.update_of_ne (Nat.ne_of_lt hj)]
    exact h.before j hj
  · show Function.update v.probes i _ j = {}
    rw [Function.update_of_ne (Nat.ne_of_gt hj)]
    exact h.after j (Nat.le_of_lt hj)
  · show (Function.update v.probes i _ i).wrote0 = _
    rw [Function.update_self]
  · show (Function.update v.probes i _ i).wrote1 = _
    rw [Function.update_self]
  · show (Function.update v.probes i _ i).read0 = _
    rw [Function.update_self]

/-- With its second word read too, the probe matches if both words are the pattern's. -/
theorem Probing.read {i : Nat} {v0 : UInt32} {v : Report} (h : Probing i v0 v) (v1 : UInt32) :
    Probing i v0 { v with probes := Function.update v.probes i { v.probes i with read1 := v1 } } ∧
      (Function.update v.probes i { v.probes i with read1 := v1 } i).read1 = v1 := by
  refine ⟨⟨h.stage, h.reached, fun j hj => ?_, fun j hj => ?_, ?_, ?_, ?_⟩, ?_⟩
  · show (Function.update v.probes i _ j).Matches j
    rw [Function.update_of_ne (Nat.ne_of_lt hj)]
    exact h.before j hj
  · show Function.update v.probes i _ j = {}
    rw [Function.update_of_ne (Nat.ne_of_gt hj)]
    exact h.after j hj
  · show (Function.update v.probes i _ i).wrote0 = _
    rw [Function.update_self]
    exact h.wrote0
  · show (Function.update v.probes i _ i).wrote1 = _
    rw [Function.update_self]
    exact h.wrote1
  · show (Function.update v.probes i _ i).read0 = _
    rw [Function.update_self]
    exact h.read0
  · rw [Function.update_self]

/-- A probe that does not match ends the loopback, and is the one that failed. -/
theorem Probing.fails {i : Nat} {v0 : UInt32} {v : Report} (h : Probing i v0 v) (hi : i < probeCount)
    {s : NtStatus} (hs : s.ok = false) (hne : v0 = probeMagic i → (v.probes i).read1 ≠ ~~~probeMagic i) :
    Looped s v := by
  refine ⟨h.stage, fun hok => ?_, fun _ => ?_⟩
  · rw [hs] at hok
    cases hok
  · show Report.ProbesTell v
    unfold Report.ProbesTell
    rw [h.stage]
    refine ⟨i, hi, h.before, fun hm => ?_, h.after⟩
    obtain ⟨h0, h1, h2, h3⟩ := hm
    refine hne ?_ (h3.trans h1)
    rw [← h.read0, h2, h0]

theorem Probing.passes {i : Nat} {v : Report} (h : Probing i (probeMagic i) v)
    (hread : (v.probes i).read1 = ~~~probeMagic i) : Matched (i + 1) v := by
  refine ⟨h.stage, h.reached, fun j hj => ?_, h.after⟩
  rcases Nat.lt_succ_iff_lt_or_eq.mp hj with hj | rfl
  · exact h.before j hj
  · exact ⟨h.wrote0, h.wrote1, h.read0.trans h.wrote0.symm, hread.trans h.wrote1.symm⟩

/-- No pattern word is all ones. -/
theorem probeMagic_ne {i : Nat} (hi : i < probeCount) : probeMagic i ≠ 0xFFFFFFFF := by
  unfold probeCount at hi
  obtain rfl | rfl | rfl : i = 0 ∨ i = 1 ∨ i = 2 := by omega
  all_goals decide

theorem mailScope_report : MailScope (fun _ _ => True) fun o : Op => reportFoot o ∧ ¬ o.movesLock .arc := by
  refine mailScope_of (fun o ho => ?_) (fun f hf => ⟨fun c => ?_, id⟩) fun _ _ => ⟨⟨trivial, id⟩, fun _ => ⟨trivial, id⟩⟩
  · cases o <;> first | exact (ho : False).elim | exact ⟨trivial, id⟩
  · rw [hf c]
    exact ⟨⟨rfl, rfl, rfl⟩, rfl, rfl⟩

/-- Some load has shown the window mapped. -/
theorem seenWindow_true : SeenWindow fun _ _ => True :=
  ⟨⟨{ tlbRegs := some 0 }, trivial, nofun⟩, ⟨{ kernelTlb := some 0 }, trivial, nofun⟩⟩

theorem verifyProbes_report (ht : t.Works) (offs : List UInt64) (i : Nat)
    (hlen : i + offs.length = probeCount) :
    reported.protocol.Triple (driverMachine.observe attemptLog) t (reported.Held t (Matched i))
      (verifyProbes i offs) fun status => reported.Held t (Looped status) := by
  have hstop : ∀ {Φ : Report → Prop} {s : NtStatus}, (∀ v, Φ v → Looped s v) →
      reported.protocol.Triple (driverMachine.observe attemptLog) t (reported.Held t Φ)
        (Pure.pure s : Drv NtStatus) fun status => reported.Held t (Looped status) :=
    fun h => Triple.pure (Guarded.stable_held ht) fun _ hx => ⟨hx.lock, h _ hx.state⟩
  have hread : ∀ {Φ : Report → Prop} (a : UInt64), reported.protocol.Keeps (driverMachine.observe attemptLog) t
      (reported.Held t Φ) (sysmemNocRead32 a) :=
    fun a => arm_keeps ht (sysmemNocRead32_within mailScope_report seenWindow_true a)
  induction offs generalizing i with
  | nil =>
    refine hstop fun v hv => ⟨hv.stage, fun _ j hj => hv.before j (Nat.lt_of_lt_of_eq hj hlen.symm), ?_⟩
    exact fun hok => absurd rfl hok
  | cons off offs ih =>
    have hi : i < probeCount := by
      simp only [List.length_cons] at hlen
      omega
    refine Triple.bind (p := sysmemNocRead32 _) Guarded.steady (hread _) fun v0 => ?_
    refine arm_probes (g := fun ps => Function.update ps i { ps i with
      offset := off, wrote0 := probeMagic i, wrote1 := ~~~probeMagic i, read0 := v0 }) (Ψ := Probing i v0) ht
      (fun v hv => ⟨hv.probe off v0, fun hr => ?_⟩) ?_
    · rw [hv.reached] at hr
      cases hr
    refine Triple.ite (fun hones => hstop fun v hv => hv.fails hi rfl fun heq => ?_) fun _ => ?_
    · exact absurd (heq.symm.trans hones) (probeMagic_ne hi)
    refine Triple.bind (p := sysmemNocRead32 _) Guarded.steady (hread _) fun v1 => ?_
    refine arm_probes (g := fun ps => Function.update ps i { ps i with read1 := v1 })
      (Ψ := fun v => Probing i v0 v ∧ (v.probes i).read1 = v1) ht
      (fun v hv => ⟨hv.read v1, fun hr => ?_⟩) ?_
    · rw [hv.reached] at hr
      cases hr
    refine Triple.ite (fun hbad => hstop fun v hv => hv.1.fails hi rfl fun heq hr => ?_) fun hgood => ?_
    · exact hbad.elim (fun h => h heq) fun h => h (hv.2.symm.trans hr)
    · have hgood : v0 = probeMagic i ∧ v1 = ~~~probeMagic i := by
        rwa [not_or, not_not, not_not] at hgood
      obtain ⟨rfl, rfl⟩ := hgood
      refine Triple.weaken (ih (i + 1) ?_) (fun x hx => ⟨hx.lock, hx.state.1.passes hx.state.2⟩) fun _ _ h => h
      simp only [List.length_cons] at hlen
      omega

/-- The loopback blanks the probes, writes the pattern, reads it back, and wipes it. -/
theorem sysmemLoopbackVerify_report (ht : t.Works) :
    reported.protocol.Triple (driverMachine.observe attemptLog) t
      (reported.Held t fun v => v.stage = .loopback) sysmemLoopbackVerify
      fun status => reported.Held t (Looped status) := by
  have hwords : ∀ off v, patternFoot (.bufferWrite off v) := fun _ _ => trivial
  refine Guarded.held_spares (A := reported) (o := .load) ht (spares_report trivial) id fun c => ?_
  refine arm_probes (g := fun _ _ => {}) (Ψ := fun v => v.stage = .loopback ∧ ∀ i, v.probes i = {}) ht
    (fun v hv => ⟨⟨hv, fun _ => rfl⟩, fun _ _ => rfl⟩) ?_
  have hwrite : reported.protocol.Triple (driverMachine.observe attemptLog) t
      (reported.Held t fun v => v.stage = .loopback ∧ ∀ i, v.probes i = {})
      (writeProbes 0 (loopbackOffsets c.sysmemSize)) fun _ => reported.Held t (Matched 0) := by
    refine arm_write (Ψ := Matched 0) ht
      (fun v hv => ⟨hv.1, rfl, fun j hj => absurd hj (Nat.not_lt_zero j), fun j _ => hv.2 j⟩) ?_
    refine arm_writes ht (fun v hv => ⟨hv.stage, rfl, hv.before, hv.after⟩) ⟨hwords _ _, fun _ _ => ?_⟩
    exact writeProbes_within hwords _ _
  refine Triple.bind (p := writeProbes 0 _) Guarded.steady hwrite fun _ => ?_
  refine Guarded.held_spares (A := reported) (o := .memoryBarrier) ht (spares_report trivial) id fun _ => ?_
  refine Triple.bind (p := verifyProbes 0 _) Guarded.steady (verifyProbes_report ht _ 0 rfl) fun status => ?_
  refine Triple.bind (p := zeroProbes _) Guarded.steady ?_ fun _ =>
    Triple.pure (Guarded.stable_held ht) fun _ h => h
  exact arm_writes ht (fun v hv => ⟨hv.stage, hv.all, hv.some⟩) (zeroProbes_within hwords _)

/-! ### The stages -/

/-- How an attempt ended, its verdict not yet recorded. -/
structure Ended (status : NtStatus) (v : Report) : Prop where
  passed : status.ok = true → ∀ i < probeCount, (v.probes i).Matches i
  stopped : ¬ status.ok → v.Told

theorem told_of_early {v : Report} (h : v.stage.early = true) : v.Told := by
  intro hlate
  rw [h] at hlate
  cases hlate

theorem sysmemDetectPcieTile_spares :
    sysmemDetectPcieTile.Only fun o : Op => reportFoot o ∧ ¬ o.movesLock .arc := by
  have hrecord : ∀ {f : DeviceContext → DeviceContext}, ReportFrame f →
      (fun o : Op => reportFoot o ∧ ¬ o.movesLock .arc) (.store f) := fun hf => ⟨hf, id⟩
  refine ⟨⟨trivial, id⟩, fun c _ => Within.ite (fun _ => trivial) fun _ => ⟨⟨trivial, id⟩, fun _ _ => ?_⟩⟩
  refine ⟨hrecord fun _ => ⟨⟨rfl, rfl, rfl⟩, rfl, rfl⟩, fun _ _ => ?_⟩
  refine Within.ite (fun _ => trivial) fun _ => Within.ite (fun _ => trivial) fun _ => ?_
  exact ⟨hrecord fun _ => ⟨⟨rfl, rfl, rfl⟩, rfl, rfl⟩, fun _ _ => trivial⟩

theorem iatuProgramOutbound_spares (region : Nat) (base limit target : UInt64) :
    (iatuProgramOutbound region base limit target).Only fun o : Op => reportFoot o ∧ ¬ o.movesLock .arc := by
  rw [iatuProgramOutbound_eq]
  refine Within.ite (fun _ => trivial) fun _ => Within.ite (fun _ => trivial) fun _ => ⟨⟨trivial, id⟩, fun c _ => ?_⟩
  have hwrites : ∀ es, (writeRegisters c.bar2Iatu es).Only fun o : Op => reportFoot o ∧ ¬ o.movesLock .arc := by
    intro es
    induction es with
    | nil => trivial
    | cons e es ih => exact ⟨⟨trivial, id⟩, fun _ _ => ih⟩
  refine (hwrites _).bind fun _ => ⟨⟨fun _ => ⟨⟨rfl, rfl, rfl⟩, rfl, rfl⟩, id⟩, fun _ _ => trivial⟩

/-- The checks of the arm: it stops early, in the loopback, or with all probes matching. -/
theorem armChecks_report (ht : t.Works) :
    reported.protocol.Triple (driverMachine.observe attemptLog) t (reported.Held t fun _ => True) armChecks
      fun status => reported.Held t (Ended status) := by
  have hearly : ∀ {s : NtStatus}, s.ok = false → reported.protocol.Triple (driverMachine.observe attemptLog) t
      (reported.Held t fun v => v.stage.early = true) (Pure.pure s : Drv NtStatus)
      fun status => reported.Held t (Ended status) := by
    intro s hs
    refine Triple.pure (Guarded.stable_held ht) fun x hx => ⟨hx.lock, fun hok => ?_, fun _ => told_of_early hx.state⟩
    rw [hs] at hok
    cases hok
  refine Guarded.held_spares (A := reported) (o := .load) ht (spares_report trivial) id fun c => ?_
  refine Triple.ite (fun _ => arm_stage (Ψ := fun v => v.stage.early = true) ht (fun _ _ => rfl) (hearly rfl))
    fun _ => ?_
  refine Triple.ite (fun _ => arm_stage (Ψ := fun v => v.stage.early = true) ht (fun _ _ => rfl) (hearly rfl))
    fun _ => ?_
  refine arm_stage (Ψ := fun v => v.stage.early = true) ht (fun _ _ => rfl) ?_
  refine Triple.bind (p := sysmemDetectPcieTile) Guarded.steady (arm_keeps ht sysmemDetectPcieTile_spares)
    fun status => Triple.ite (fun hbad => hearly (by simpa using hbad)) fun _ => ?_
  refine arm_stage (Ψ := fun v => v.stage.early = true) ht (fun _ _ => rfl) ?_
  refine Guarded.held_spares (A := reported) (o := .load) ht (spares_report trivial) id fun c => ?_
  refine Triple.bind (p := iatuProgramOutbound 0 0 _ _) Guarded.steady
    (arm_keeps ht (iatuProgramOutbound_spares _ _ _ _))
    fun status => Triple.ite (fun hbad => hearly (by simpa using hbad)) fun _ => ?_
  refine arm_stage (Ψ := fun v => v.stage = .loopback) ht (fun _ _ => rfl) ?_
  refine Triple.weaken (sysmemLoopbackVerify_report ht) (fun _ h => h) fun status x hx => ?_
  exact ⟨hx.lock, hx.state.all, fun hbad _ => hx.state.some hbad⟩

theorem setVerified_report (ht : t.Works) (status : NtStatus) :
    reported.protocol.Triple (driverMachine.observe attemptLog) t (reported.Held t (Ended status))
      (setVerified status) fun _ => reported.Held t Report.Told := by
  unfold setVerified
  refine Triple.ite (fun hbad => ?_) fun hok => ?_
  · refine Triple.pure (Guarded.stable_held ht) fun x hx => ⟨hx.lock, hx.state.stopped ?_⟩
    simpa using hbad
  · have hok : status.ok = true := by simpa using hok
    refine arm_stage (Ψ := Report.Told) ht (fun v hv _ => ?_) ?_
    · exact hv.passed hok
    · exact arm_keeps ht ⟨⟨fun _ => ⟨⟨rfl, rfl, rfl⟩, rfl, rfl⟩, id⟩, fun _ _ => trivial⟩

/-- The whole arm. One that is not a real attempt leaves the report of the last. -/
theorem armLocked_report (ht : t.Works) :
    reported.protocol.Keeps (driverMachine.observe attemptLog) t (reported.Held t Report.Told) armLocked := by
  have hrecord : ∀ {f : DeviceContext → DeviceContext} {Φ : Report → Prop} {β : Type} {k : Unit → Drv β}
      {Q : β → World × Attempts → Prop}, ReportFrame f →
      reported.protocol.Triple (driverMachine.observe attemptLog) t (reported.Held t Φ) (k ()) Q →
      reported.protocol.Triple (driverMachine.observe attemptLog) t (reported.Held t Φ) (.vis (.store f) k) Q :=
    fun hf hk => Guarded.held_spares (A := reported) ht (spares_report hf) id fun _ => hk
  refine hrecord (fun _ => ⟨⟨rfl, rfl, rfl⟩, rfl, rfl⟩) ?_
  refine Guarded.held_spares (A := reported) (o := .load) ht (spares_report trivial) id fun c => ?_
  refine Triple.ite (fun _ => Keeps.pure (Guarded.stable_held ht)) fun _ => ?_
  rw [armStages_eq, bind_assoc]
  refine Triple.bind (p := armChecks) Guarded.steady
    (Triple.weaken (armChecks_report ht) (fun _ hx => ⟨hx.lock, trivial⟩) fun _ _ h => h) fun status => ?_
  refine Triple.bind (p := setVerified status) Guarded.steady (setVerified_report ht status) fun status => ?_
  refine hrecord (fun _ => ⟨⟨rfl, rfl, rfl⟩, rfl, rfl⟩) ?_
  exact Keeps.pure (Guarded.stable_held ht)

end Arm

/-! ## The threads at work -/

section Works

variable {t : Tid}

/-- What a thread at work keeps, outside ArcLock and under it. -/
theorem footRegions_report (ht : t.Works) : FootRegions (driverMachine.observe attemptLog) reported.protocol t
    (fun o => reportFoot o ∧ ¬ o.movesLock .arc) (Owes t fun _ => True) (reported.Held t Report.Told) where
  steady := Guarded.steady
  plain o ho := by cases o <;> first | exact (ho : False).elim | exact ⟨trivial, id⟩
  quiet f hf := by
    refine ⟨fun c => ?_, id⟩
    rw [hf c]
    exact ⟨⟨rfl, rfl, rfl⟩, rfl, rfl⟩
  unverify := ⟨fun _ => ⟨⟨rfl, rfl, rfl⟩, rfl, rfl⟩, id⟩
  access _ _ := ⟨⟨trivial, id⟩, fun _ => ⟨trivial, id⟩⟩
  outside hp := by
    refine owes_keeps ht.drives (hp.mono fun o ho => ?_)
    rcases ho with ho | ho
    · exact ho.1
    · cases o <;> first | exact (ho : False).elim | trivial
  held hp := arm_keeps ht hp
  acquire := by
    refine Triple.vis (I := fun _ => reported.Held t Report.Told) (stable_owes ht.drives) (fun _ _ _ => trivial) ?_
      fun _ => Keeps.pure (Guarded.stable_held ht)
    intro x L e a y hx hl hinv ha he
    obtain ⟨hinv', hguar, howes⟩ := spares_step (o := .acquire .arc) trivial hx hl hinv ha he
    have hlock : y.1.arcLock = some t := by
      obtain ⟨w₁, hs, hw⟩ := World.exec_step (watched_exec he).1
      simp only [World.step, Option.ite_none_right_eq_some, Option.some.injEq, Prod.mk.injEq] at hs
      obtain ⟨-, -, rfl⟩ := hs
      rw [hw]
      rfl
    exact ⟨hinv', hguar, hlock, howes.told hlock⟩
  release := by
    refine Triple.weaken (owes_keeps ht.drives ((within_perform _).mpr trivial)) (fun x hx => ?_) fun _ _ h => h
    exact ⟨fun _ => hx.state, fun _ => trivial⟩

theorem arcRegions_report (ht : t.Works) : ArcRegions (driverMachine.observe attemptLog) reported.protocol t
    (Owes t fun _ => True) (reported.Held t Report.Told) :=
  (footRegions_report ht).arcRegions (armLocked_report ht)

theorem configScope_report : ConfigScope fun o : Op => reportFoot o ∧ ¬ o.movesLock .arc where
  plain o ho := (footRegions_report ioctl_works).plain o ho
  setBusData _ _ _ := ⟨trivial, id⟩
  setFileGen _ _ := ⟨trivial, id⟩
  store f hf := by
    refine ⟨fun c => ?_, id⟩
    rw [(hf c).1]
    exact ⟨⟨rfl, rfl, rfl⟩, rfl, rfl⟩

theorem requestRegions_report (fileObject : Option FileObject) :
    RequestRegions (driverMachine.observe attemptLog) reported.protocol fileObject (Owes .ioctl fun _ => True)
      (Owes .ioctl fun _ => True) (Owes .ioctl fun _ => True) (reported.Held .ioctl Report.Told) := by
  have hfoot := footRegions_report ioctl_works
  have harc := arcRegions_report ioctl_works
  have hlocked : ∀ {s : Section}, reportFoot (.locked s) ∧ ¬ (Op.locked s).movesLock .arc := ⟨trivial, id⟩
  refine hfoot.requestRegions (fun o ho => ?_) ⟨⟨trivial, nofun⟩, ⟨trivial, nofun⟩⟩
    (armLocked_report ioctl_works) ?_ ?_
  · cases o with
    | acquire l => exact .inr ho
    | release l => exact .inr ho
    | store | allocContiguous | freeContiguous | bufferWrite => exact (ho : False).elim
    | _ => exact .inl ⟨trivial, id⟩
  · refine harc.ioctlResetDevice (B := Owes .ioctl fun _ => True) ?_ hfoot.acquire ?_
    · refine Triple.weaken (hfoot.keeps ((within_perform _).mpr hlocked)) (fun _ h => h) fun busy _ h => ?_
      cases busy <;> exact h
    · exact hfoot.held (armReset_only configScope_report hlocked (fun _ => ⟨trivial, id⟩) _)
  · exact hfoot.held (recoverReset_within configScope_report.toBusScope.restoring
      (fun _ => configScope_report.store _ fun _ => ⟨rfl, id⟩)
      (configScope_report.store _ fun _ => ⟨rfl, id⟩) hfoot.access)

end Works

/-! ## The hardware callbacks -/

section Hardware

variable {α : Type} {Φ : Report → Prop} {Q : α → World × Attempts → Prop}

/-- What the tiers tell depends on the size only while the buffer is not freed. -/
theorem Report.TiersTell.mono {v v' : Report} (h : v.TiersTell) (hres : v'.results = v.results)
    (hout : v'.seen.outcomes = v.seen.outcomes)
    (hsize : v'.seen.held = true → v.seen.held = true ∧ v'.size = v.size) : v'.TiersTell := by
  unfold Report.TiersTell
  rw [hres, hout]
  rcases h with hnone | hfailed | ⟨k, size, hout, htier, hbefore, hok, hafter, hheld⟩
  · exact .inl hnone
  · exact .inr (.inl hfailed)
  · refine .inr (.inr ⟨k, size, hout, htier, hbefore, hok, hafter, fun hh => ?_⟩)
    obtain ⟨hh, hsame⟩ := hsize hh
    rw [hsame]
    exact hheld hh

/-- What a hardware callback writes leaves the arm's part. -/
theorem ReportInv.allocated {L : Tid → Prop} {l : Option Tid} {v : Report} (h : ReportInv L l v)
    (hl : L .hardware) {results : Nat → TierResult} {size : UInt64} {va : IoPtr} {outcomes : List Bool}
    {held : Bool} {deepest : Nat} (huntried : ∀ i, deepest ≤ i → results i = .notTried) :
    ReportInv L l { v with results, size, va, seen := { v.seen with outcomes, held, deepest } } :=
  ⟨huntried, h.unreached, fun hn => absurd hl hn, h.probes, h.left⟩

/-- One operation of a hardware callback that writes of the tiers. -/
theorem tiers_vis {o : Op} {k : o.Ans → Drv α} {Ψ : o.Ans → Report → Prop} (hlock : ¬ o.movesLock .arc)
    (hstep : ∀ (x : World × Attempts) e a (y : World × Attempts), Φ (report x) →
      (∀ i, x.2.deepest ≤ i → x.1.ctx.sysmemTierResult i = .notTried) →
      (x.2.outcomes.getLast? = some true → x.2.deepest ≤ x.2.outcomes.length) →
      (driverMachine.observe attemptLog).exec .hardware o e x = some (a, y) →
      Ψ a (report y) ∧ (∀ i, y.2.deepest ≤ i → y.1.ctx.sysmemTierResult i = .notTried) ∧
        y.1.ctx.sysmemStage = x.1.ctx.sysmemStage ∧ y.1.ctx.sysmemProbes = x.1.ctx.sysmemProbes ∧
        y.2.reached = x.2.reached)
    (hk : ∀ a, reported.protocol.Triple (driverMachine.observe attemptLog) .hardware (Owes .hardware (Ψ a))
      (k a) Q) :
    reported.protocol.Triple (driverMachine.observe attemptLog) .hardware (Owes .hardware Φ) (.vis o k) Q := by
  refine Triple.vis (I := fun a => Owes .hardware (Ψ a)) (stable_owes trivial) (fun _ _ _ => trivial) ?_ hk
  intro x L e a y hx hl hinv ha he
  have hinv : ReportInv L x.1.arcLock (report x) := hinv
  obtain ⟨hstate, huntried, hstage, hprobes, hreached⟩ := hstep x e a y (hx.state rfl) hinv.untried (ha.2.1 rfl) he
  have hkeep : y.1.arcLock = x.1.arcLock := (World.exec_frame (watched_exec he).1).arcLock hlock
  have hview : report y = { report x with
      results := y.1.ctx.sysmemTierResult, size := y.1.ctx.sysmemSize, va := y.1.ctx.sysmemVa
      seen := { x.2 with outcomes := y.2.outcomes, held := y.2.held, deepest := y.2.deepest } } := by
    rw [report, DeviceContext.report, hstage, hprobes]
    show _ = Report.mk _ _ _ _ _ ⟨y.2.outcomes, y.2.held, y.2.deepest, x.2.reached⟩
    rw [← hreached]
    rfl
  refine ⟨?_, Guarded.guar_of_exec ha he fun hn => absurd (.inr rfl) hn, fun hl => ?_, fun _ => hstate⟩
  · show ReportInv L y.1.arcLock (report y)
    rw [hkeep, hview]
    exact hinv.allocated hl huntried
  · rw [hkeep] at hl
    have htold := hx.told hl
    rw [hview]
    exact htold

/-- A store of a hardware callback. -/
theorem tiers_store {f : DeviceContext → DeviceContext} {k : Unit → Drv α} {Ψ : Report → Prop}
    (hsame : ∀ c, (f c).sysmemStage = c.sysmemStage ∧ (f c).sysmemProbes = c.sysmemProbes)
    (hstep : ∀ c g, Φ (c.report g) → (∀ i, g.deepest ≤ i → c.sysmemTierResult i = .notTried) →
      (g.outcomes.getLast? = some true → g.deepest ≤ g.outcomes.length) →
      Ψ ((f c).report g) ∧ ∀ i, g.deepest ≤ i → (f c).sysmemTierResult i = .notTried)
    (hk : reported.protocol.Triple (driverMachine.observe attemptLog) .hardware (Owes .hardware Ψ) (k ()) Q) :
    reported.protocol.Triple (driverMachine.observe attemptLog) .hardware (Owes .hardware Φ)
      (.vis (.store f) k) Q := by
  refine tiers_vis (Ψ := fun _ => Ψ) id (fun x e a y hx huntried hlast he => ?_) fun _ => hk
  obtain ⟨hexec, -, hnote⟩ := watched_exec he
  have hctx : y.1.ctx = f x.1.ctx := (World.exec_frame hexec).ctx
  have hseen : y.2 = x.2 := hnote
  rw [report, hctx, hseen]
  obtain ⟨hnext, huntried'⟩ := hstep x.1.ctx x.2 hx huntried hlast
  exact ⟨hnext, huntried', (hsame _).1, (hsame _).2, rfl⟩

/-- What a load of a hardware callback shows of the buffer. -/
theorem tiers_load {k : DeviceContext → Drv α}
    (hk : ∀ c : DeviceContext, reported.protocol.Triple (driverMachine.observe attemptLog) .hardware
      (Owes .hardware fun v => Φ v ∧ v.va = c.sysmemVa) (k c) Q) :
    reported.protocol.Triple (driverMachine.observe attemptLog) .hardware (Owes .hardware Φ)
      (.vis .load k) Q := by
  refine tiers_vis (Ψ := fun (c : DeviceContext) v => Φ v ∧ v.va = c.sysmemVa) id
    (fun x e c y hx huntried _ he => ?_) hk
  obtain ⟨hexec, -, hnote⟩ := watched_exec he
  have hctx : y.1.ctx = x.1.ctx := (World.exec_frame hexec).ctx
  have hseen : y.2 = x.2 := hnote
  obtain ⟨w₁, hs, -⟩ := World.exec_step hexec
  obtain ⟨rfl, -⟩ := Prod.mk.inj (Option.some.inj hs)
  rw [report, hctx, hseen]
  exact ⟨⟨hx, rfl⟩, huntried, rfl, rfl, rfl⟩

/-! ### The allocation -/

/-- The tiers before tier `i` were tried in vain. -/
structure Trying (i : Nat) (v : Report) : Prop where
  outcomes : 0 < i → v.seen.outcomes = List.replicate i false
  freed : 0 < i → v.seen.held = false
  failed : ∀ j < i, v.results j = .failed

/-- Tier `i` was asked for, with this outcome. -/
structure Asked (i : Nat) (obtained : Bool) (v : Report) : Prop where
  outcomes : v.seen.outcomes = List.replicate i false ++ [obtained]
  held : v.seen.held = obtained
  deepest : i < v.seen.deepest
  failed : ∀ j < i, v.results j = .failed

/-- Asking for a tier is noted after those before it: only the first begins an allocation. -/
theorem Trying.tried {i : Nat} {v : Report} (h : Trying i v) {size : UInt64}
    (hsize : sysmemTiers[i]? = some size) (obtained : Bool) :
    (v.seen.tried size obtained).outcomes = List.replicate i false ++ [obtained] ∧
      i < (v.seen.tried size obtained).deepest := by
  have hbefore : (if sysmemTiers.head? = some size then [] else v.seen.outcomes) = List.replicate i false := by
    match i, h, hsize with
    | 0, _, hsize =>
      obtain rfl := Option.some.inj hsize
      rfl
    | 1, h, hsize =>
      obtain rfl := Option.some.inj hsize
      exact h.outcomes Nat.one_pos
    | 2, h, hsize =>
      obtain rfl := Option.some.inj hsize
      exact h.outcomes Nat.two_pos
    | i + 3, _, hsize => cases hsize
  constructor
  · show (if sysmemTiers.head? = some size then [] else v.seen.outcomes) ++ [obtained] = _
    rw [hbefore]
  · show i < max v.seen.deepest ((if sysmemTiers.head? = some size then [] else v.seen.outcomes).length + 1)
    rw [hbefore, List.length_replicate]
    omega

theorem allocateTiers_report (node : Option UInt32) (sizes : List UInt64) (i : Nat)
    (hsizes : sysmemTiers.drop i = sizes) (hi : i ≤ sysmemTiers.length) :
    reported.protocol.Triple (driverMachine.observe attemptLog) .hardware (Owes .hardware (Trying i))
      (allocateTiers node i sizes) fun _ => Owes .hardware Report.TiersKnown := by
  induction sizes generalizing i with
  | nil =>
    have hend : i = sysmemTiers.length := by
      have hlen := congrArg List.length hsizes
      rw [List.length_drop, List.length_nil] at hlen
      omega
    subst hend
    refine Triple.pure (stable_owes trivial) fun x hx => ⟨hx.told, fun _ => ?_⟩
    obtain ⟨hout, hfreed, hfailed⟩ := hx.state rfl
    refine ⟨.inr (.inl ⟨hout (by decide), hfailed⟩), fun hheld => ?_⟩
    rw [hfreed (by decide)] at hheld
    cases hheld
  | cons size sizes ih =>
    have hlt : i < sysmemTiers.length := by
      have hlen := congrArg List.length hsizes
      rw [List.length_drop, List.length_cons] at hlen
      omega
    have htier : sysmemTiers[i]? = some size := by
      rw [← List.head?_drop, hsizes]
      rfl
    have hrest : sysmemTiers.drop (i + 1) = sizes := by
      rw [← List.tail_drop, hsizes]
      rfl
    refine tiers_vis (Ψ := fun va => Asked i (Option.isSome va)) id (fun x e va y hx huntried _ he => ?_)
      fun va => ?_
    · obtain ⟨hexec, -, hnote⟩ := watched_exec he
      have hctx : y.1.ctx = x.1.ctx := (World.exec_frame hexec).ctx
      have hseen : y.2 = x.2.tried size (Option.isSome va) := hnote
      obtain ⟨hout, hdeep⟩ := Trying.tried hx htier (Option.isSome va)
      rw [report, hctx, hseen]
      refine ⟨⟨hout, rfl, hdeep, hx.failed⟩, fun j hj => huntried j ?_, rfl, rfl, rfl⟩
      exact Nat.le_trans (Nat.le_max_left _ _) hj
    -- the outcome is noted, so no earlier allocation went past a tier obtained
    refine tiers_store (Ψ := fun v => Asked i (Option.isSome va) v ∧ v.va = va ∧
      (Option.isSome va = true → ∀ j, i < j → v.results j = .notTried)) (fun _ => ⟨rfl, rfl⟩)
      (fun c g hx huntried hlast => ⟨⟨⟨hx.outcomes, hx.held, hx.deepest, hx.failed⟩, rfl, fun hsome j hj => ?_⟩,
        huntried⟩) ?_
    · have hout : g.outcomes = List.replicate i false ++ [true] := by
        rw [← hsome]
        exact hx.outcomes
      have hdeep := hlast (by rw [hout, List.getLast?_concat])
      rw [hout, List.length_append, List.length_replicate, List.length_singleton] at hdeep
      exact huntried j (by omega)
    refine Triple.ite (fun hsome => ?_) fun hnone => ?_
    · have hobtained : Option.isSome va = true := Option.isSome_iff_ne_none.mpr hsome
      rw [hobtained]
      refine tiers_store (Ψ := Report.TiersKnown) (fun _ => ⟨rfl, rfl⟩) (fun c g hx huntried _ => ?_)
        (Triple.pure (stable_owes trivial) fun _ h => h)
      obtain ⟨hasked, hva, hafter⟩ := hx
      have hother : ∀ {j}, j ≠ i → Function.update c.sysmemTierResult i .ok j = c.sysmemTierResult j :=
        fun hj => Function.update_of_ne hj _ _
      refine ⟨⟨.inr (.inr ⟨i, size, hasked.outcomes, htier, fun j hj => ?_, ?_, fun j hj => ?_, fun _ => rfl⟩),
        fun _ => ?_⟩, fun j hj => ?_⟩
      · exact (hother (Nat.ne_of_lt hj)).trans (hasked.failed j hj)
      · exact Function.update_self i _ _
      · exact (hother (Nat.ne_of_gt hj)).trans (hafter rfl j hj)
      · exact hva.trans_ne hsome
      · have hne : j ≠ i := Nat.ne_of_gt (Nat.lt_of_lt_of_le hasked.deepest hj)
        exact (hother hne).trans (huntried j hj)
    · have hrefused : Option.isSome va = false := by
        rw [not_not.mp hnone]
        rfl
      rw [hrefused]
      refine tiers_store (Ψ := Trying (i + 1)) (fun _ => ⟨rfl, rfl⟩) (fun c g hx huntried _ => ?_)
        (ih (i + 1) hrest hlt)
      obtain ⟨hasked, -, -⟩ := hx
      have hother : ∀ {j}, j ≠ i → Function.update c.sysmemTierResult i .failed j = c.sysmemTierResult j :=
        fun hj => Function.update_of_ne hj _ _
      refine ⟨⟨fun _ => ?_, fun _ => hasked.held, fun j hj => ?_⟩, fun j hj => ?_⟩
      · rw [List.replicate_succ']
        exact hasked.outcomes
      · rcases Nat.lt_succ_iff_lt_or_eq.mp hj with hj | rfl
        · exact (hother (Nat.ne_of_lt hj)).trans (hasked.failed j hj)
        · exact Function.update_self j _ _
      · have hne : j ≠ i := Nat.ne_of_gt (Nat.lt_of_lt_of_le hasked.deepest hj)
        exact (hother hne).trans (huntried j hj)

/-- PrepareHardware's allocation tells of itself. -/
theorem sysmemAllocate_report :
    reported.protocol.Triple (driverMachine.observe attemptLog) .hardware (Owes .hardware fun _ => True)
      sysmemAllocate fun _ => Owes .hardware Report.TiersKnown := by
  have hkeeps : ∀ {β : Type} {p : Drv β} {Φ : Report → Prop}, p.Only reportFoot →
      reported.protocol.Keeps (driverMachine.observe attemptLog) .hardware (Owes .hardware Φ) p :=
    fun hp => owes_keeps (t := .hardware) trivial hp
  have htiers : ∀ node, reported.protocol.Triple (driverMachine.observe attemptLog) .hardware
      (Owes .hardware fun _ => True) (allocateTiers node 0 sysmemTiers) fun _ => Owes .hardware Report.TiersKnown := by
    intro node
    refine Triple.weaken (allocateTiers_report node _ 0 rfl (Nat.zero_le _)) (fun x hx => ⟨hx.told, fun _ => ?_⟩)
      fun _ _ h => h
    exact ⟨nofun, nofun, fun j hj => absurd hj (Nat.not_lt_zero j)⟩
  refine Triple.bind (p := op .numaNode) Guarded.steady (hkeeps ((within_perform _).mpr trivial)) fun node => ?_
  refine Triple.bind (p := allocateTiers node 0 sysmemTiers) Guarded.steady (htiers node) fun _ => ?_
  refine tiers_load fun c => Triple.ite (fun hnone => ?_) fun _ => ?_
  · refine tiers_store (Ψ := Report.TiersKnown) (fun _ => ⟨rfl, rfl⟩) (fun d g hx huntried _ => ⟨?_, huntried⟩)
      (Triple.pure (stable_owes (t := .hardware) trivial) fun _ h => h)
    have hfreed : ¬ g.held = true := fun hh => hx.1.there hh (hx.2.trans hnone)
    exact ⟨hx.1.tell.mono rfl rfl fun hh => absurd hh hfreed, fun hh => absurd hh hfreed⟩
  · refine Triple.weaken (hkeeps (Φ := Report.TiersKnown) ⟨trivial, fun phys _ => ⟨?_, fun _ _ => ⟨trivial, ?_⟩⟩⟩)
      (fun x hx => ⟨hx.told, fun hh => (hx.state hh).1⟩) fun _ _ h => h
    · exact fun _ => ⟨⟨rfl, rfl, rfl⟩, rfl, rfl⟩
    · exact fun _ _ => trivial

theorem identityScope_report : IdentityScope reportFoot where
  silent o ho := by cases o <;> first | exact (ho : False).elim | trivial
  store _ _ _ _ _ hrep := hrep
  queryInterface := trivial
  dereferenceInterface := trivial

theorem evtDevicePrepareHardware_report (resources : List ResourceDesc) :
    reported.protocol.Keeps (driverMachine.observe attemptLog) .hardware (Owes .hardware Report.TiersKnown)
      (evtDevicePrepareHardware resources) := by
  have hdone : ∀ s : NtStatus, reported.protocol.Keeps (driverMachine.observe attemptLog) .hardware
      (Owes .hardware Report.TiersKnown) (Pure.pure s : Drv NtStatus) :=
    fun _ => Keeps.pure (stable_owes (t := .hardware) trivial)
  have hfirst : ∀ {β : Type} {p : Drv β} {k : β → Drv NtStatus}, p.Only reportFoot →
      (∀ b, reported.protocol.Keeps (driverMachine.observe attemptLog) .hardware
        (Owes .hardware Report.TiersKnown) (k b)) →
      reported.protocol.Keeps (driverMachine.observe attemptLog) .hardware
        (Owes .hardware Report.TiersKnown) (p >>= k) :=
    fun hp hk => Keeps.bind Guarded.steady (owes_keeps (t := .hardware) trivial hp) hk
  have hstep : ∀ {o : Op}, reportFoot o → (op o).Only reportFoot := fun ho => (within_perform _).mpr ho
  have hrecord : ∀ {f : DeviceContext → DeviceContext}, ReportFrame f → (store f).Only reportFoot :=
    fun hf => (within_perform _).mpr hf
  have hmap : ∀ {covered : Bool} {phys : UInt64} {len : Nat} {set : IoPtr → DeviceContext → DeviceContext},
      (∀ p, ReportFrame (set p)) → (mapOptional covered phys len set).Only reportFoot := fun hset =>
    Within.ite (fun _ => ⟨trivial, fun p _ => (within_perform _).mpr (hset p)⟩) fun _ => trivial
  refine hfirst (readPciIdentity_only identityScope_report) fun _ => Keeps.ite (hdone _) ?_
  refine hfirst (hrecord fun _ => ⟨⟨rfl, rfl, rfl⟩, rfl, rfl⟩) fun _ => ?_
  refine hfirst (recordBars_only identityScope_report resources) fun _ => ?_
  refine hfirst (hstep (o := .load) trivial) fun c => Keeps.ite (hdone _) (hfirst (hstep trivial) fun p => ?_)
  refine hfirst (hrecord fun _ => ⟨⟨rfl, rfl, rfl⟩, rfl, rfl⟩) fun _ => Keeps.ite (hdone _) ?_
  refine hfirst (hstep trivial) fun q => hfirst (hrecord fun _ => ⟨⟨rfl, rfl, rfl⟩, rfl, rfl⟩) fun _ => ?_
  refine Keeps.ite ?_ ?_
  · refine hfirst (hstep trivial) fun _ => hfirst (hrecord fun _ => ⟨⟨rfl, rfl, rfl⟩, rfl, rfl⟩) fun _ => hdone _
  refine hfirst (hmap fun _ _ => ⟨⟨rfl, rfl, rfl⟩, rfl, rfl⟩) fun _ => ?_
  refine hfirst (hmap fun _ _ => ⟨⟨rfl, rfl, rfl⟩, rfl, rfl⟩) fun _ => ?_
  refine hfirst (hmap fun _ _ => ⟨⟨rfl, rfl, rfl⟩, rfl, rfl⟩) fun _ => ?_
  refine Triple.bind (p := sysmemAllocate) Guarded.steady
    (Triple.weaken sysmemAllocate_report (fun x hx => ⟨hx.told, fun _ => trivial⟩) fun _ _ h => h) fun _ => hdone _

/-- The buffer is freed, and the tiers still tell of its allocation. -/
theorem sysmemFree_report :
    reported.protocol.Keeps (driverMachine.observe attemptLog) .hardware (Owes .hardware Report.TiersKnown)
      sysmemFree := by
  have hfree : reported.protocol.Triple (driverMachine.observe attemptLog) .hardware
      (Owes .hardware Report.TiersKnown) freeBuffer
      fun _ => Owes .hardware fun v => v.TiersTell ∧ v.seen.held = false := by
    refine tiers_load fun c => Triple.ite (fun _ => ?_) fun hnone => ?_
    · refine tiers_vis (Ψ := fun _ v => v.TiersTell ∧ v.seen.held = false) id
        (fun x e a y hx huntried _ he => ?_) fun _ => ?_
      · obtain ⟨hexec, -, hnote⟩ := watched_exec he
        have hctx : y.1.ctx = x.1.ctx := (World.exec_frame hexec).ctx
        have hseen : y.2 = { x.2 with held := false } := hnote
        rw [report, hctx, hseen]
        exact ⟨⟨hx.1.tell.mono rfl rfl nofun, rfl⟩, huntried, rfl, rfl, rfl⟩
      · refine tiers_store (Ψ := fun v => v.TiersTell ∧ v.seen.held = false) (fun _ => ⟨rfl, rfl⟩)
          (fun c g hx huntried _ => ⟨⟨hx.1.mono rfl rfl fun hh => ⟨hh, rfl⟩, hx.2⟩, huntried⟩)
          (Triple.pure (stable_owes (t := .hardware) trivial) fun _ h => h)
    · refine Triple.pure (stable_owes (t := .hardware) trivial) fun x hx => ⟨hx.told, fun hh => ?_⟩
      obtain ⟨hknown, hva⟩ := hx.state hh
      refine ⟨hknown.tell, Bool.eq_false_iff.mpr fun hheld => hknown.there hheld ?_⟩
      exact hva.trans (not_not.mp hnone)
  refine Triple.bind (p := freeBuffer) Guarded.steady hfree fun _ => ?_
  refine tiers_store (Ψ := Report.TiersKnown) (fun _ => ⟨rfl, rfl⟩) (fun c g hx huntried _ => ⟨?_, huntried⟩)
    (Triple.pure (stable_owes (t := .hardware) trivial) fun _ h => h)
  have hfreed : ¬ g.held = true := Bool.eq_false_iff.mp hx.2
  exact ⟨hx.1.mono rfl rfl fun hh => absurd hh hfreed, fun hh => absurd hh hfreed⟩

theorem evtDeviceReleaseHardware_report :
    reported.protocol.Keeps (driverMachine.observe attemptLog) .hardware (Owes .hardware Report.TiersKnown)
      evtDeviceReleaseHardware := by
  have hfirst : ∀ {β γ : Type} {p : Drv β} {k : β → Drv γ}, p.Only reportFoot →
      (∀ b, reported.protocol.Keeps (driverMachine.observe attemptLog) .hardware
        (Owes .hardware Report.TiersKnown) (k b)) →
      reported.protocol.Keeps (driverMachine.observe attemptLog) .hardware
        (Owes .hardware Report.TiersKnown) (p >>= k) :=
    fun hp hk => Keeps.bind Guarded.steady (owes_keeps (t := .hardware) trivial hp) hk
  have hstep : ∀ {o : Op}, reportFoot o → (op o).Only reportFoot := fun ho => (within_perform _).mpr ho
  have hclear : ∀ {get : DeviceContext → IoPtr} {clear : DeviceContext → DeviceContext} {len : Nat},
      ReportFrame clear → (releasePtr get clear len).Only reportFoot :=
    fun hc => releasePtr_only trivial (fun _ _ => trivial) _ hc _
  have hrevoke : revokeAllMappings.Only reportFoot :=
    ⟨trivial, fun _ _ => destroyAll_only ⟨trivial, fun _ => trivial, fun _ => trivial, fun _ => trivial,
      fun _ => trivial, fun _ _ => trivial, fun _ => trivial, fun _ => trivial, fun _ => trivial⟩ _⟩
  refine hfirst hrevoke fun _ => hfirst (hstep trivial) fun _ => ?_
  refine hfirst (hclear fun _ => ⟨⟨rfl, rfl, rfl⟩, rfl, rfl⟩) fun _ => ?_
  refine hfirst (hclear fun _ => ⟨⟨rfl, rfl, rfl⟩, rfl, rfl⟩) fun _ => ?_
  refine hfirst (hclear fun _ => ⟨⟨rfl, rfl, rfl⟩, rfl, rfl⟩) fun _ => ?_
  refine hfirst (hclear fun _ => ⟨⟨rfl, rfl, rfl⟩, rfl, rfl⟩) fun _ => ?_
  refine hfirst ((within_perform _).mpr fun _ => ⟨⟨rfl, rfl, rfl⟩, rfl, rfl⟩) fun _ => hfirst (hstep trivial) fun _ => ?_
  refine Keeps.bind (p := sysmemFree) Guarded.steady sysmemFree_report fun _ => owes_keeps (t := .hardware) trivial ?_
  refine Within.perform_bind trivial fun _ _ => ?_
  refine Within.bind (releasePtr_only trivial (fun _ _ => trivial) _
    (fun _ => ⟨⟨rfl, rfl, rfl⟩, rfl, rfl⟩) _) fun _ => Within.perform_bind trivial fun _ _ => ?_
  refine (releaseBusInterface_only identityScope_report).bind fun _ => ?_
  exact (within_perform _).mpr fun _ => ⟨⟨rfl, rfl, rfl⟩, rfl, rfl⟩

end Hardware

/-! ## Every run -/

/-- Every call begins safely. -/
theorem begins_report {L : Tid → Prop} {t : Tid} {p : Drv Unit} {x y : World × Attempts}
    (h : Begins L t p x.1 y.1) (hseen : y.2 = x.2) (hnl : ¬ L t) (hinv : ReportInv L x.1.arcLock (report x)) :
    reported.protocol.Safe (driverMachine.observe attemptLog) t p (fun _ => reported.protocol.post t) y := by
  have hview : report y = report x := by rw [report, report, begins_ctx h, hseen]
  have hlock : y.1.arcLock = x.1.arcLock := by
    generalize y.1 = w' at h
    cases h <;> rfl
  have howes : ∀ {Φ : Report → Prop}, t.Drives → (t = .hardware → Φ (report x)) → Owes t Φ y := by
    intro Φ hd hΦ
    refine ⟨fun hl => ?_, fun hh => hview ▸ hΦ hh⟩
    rw [hview]
    exact hinv.left t hd hnl (hlock ▸ hl)
  have hwork : ∀ {q : Drv Unit}, t.Works →
      reported.protocol.Keeps (driverMachine.observe attemptLog) t (Owes t fun _ => True) q →
      reported.protocol.Safe (driverMachine.observe attemptLog) t q (fun _ => reported.protocol.post t) y := by
    intro q ht hq
    refine Protocol.Safe.mono (hq y (howes ht.drives fun _ => trivial)) fun _ z hz _ => ⟨hz.told, fun hh => ?_⟩
    rcases ht with rfl | rfl <;> cases hh
  generalize y.1 = w' at h
  cases h with
  | ioctl r code p => exact hwork (.inl rfl) ((requestRegions_report r.fileObject).evtIoDeviceControl code)
  | power cb p => exact hwork (.inr rfl) ((arcRegions_report (.inr rfl)).powerCallback cb)
  | prepare resources p =>
    have hprepare := Keeps.bind (f := fun _ => (Pure.pure () : Drv Unit)) Guarded.steady
      (evtDevicePrepareHardware_report resources) fun _ => Keeps.pure (stable_owes (t := .hardware) trivial)
    refine Protocol.Safe.mono (hprepare y (howes trivial fun _ => hinv.tiers hnl)) fun _ z hz _ => ?_
    exact ⟨hz.told, hz.state⟩
  | release p =>
    refine Protocol.Safe.mono (evtDeviceReleaseHardware_report y (howes trivial fun _ => hinv.tiers hnl))
      fun _ z hz _ => ⟨hz.told, hz.state⟩
  | create fo p =>
    refine Protocol.Safe.mono (bystand_report (t := .create fo) ((evtDeviceFileCreate_only fo).mono fun o ho => ?_)
      y trivial) fun _ _ _ hd => hd.elim
    cases o <;> first | exact (ho : False).elim | exact ⟨trivial, id⟩
  | cleanup fo p =>
    refine Protocol.Safe.mono (bystand_report (t := .cleanup fo) ((evtFileCleanup_only fo).mono fun o ho => ?_)
      y trivial) fun _ _ _ hd => hd.elim
    cases o <;> first | exact (ho : False).elim | exact ⟨trivial, id⟩

theorem argued_report : reported.Argued where
  still := rfl
  initial x hx := by
    obtain ⟨⟨buffer, hw⟩, hg⟩ := hx
    have hg : x.2 = {} := hg
    have hview : report x = ({} : DeviceContext).report {} := by rw [report, hw, hg]
    show ReportInv _ x.1.arcLock (report x)
    rw [hview]
    exact ⟨fun _ _ => rfl, fun _ _ => rfl, fun _ => ⟨.inl rfl, nofun⟩, fun _ _ => rfl, fun _ _ _ _ => nofun⟩
  begins L t l v hnl h :=
    ⟨h.untried, h.unreached, fun hn => h.tiers fun hh => hn (.inr hh), h.probes,
      fun u hd hu hl => h.left u hd (fun hh => hu (.inr hh)) hl⟩
  ends L t l v _ h hpost := by
    refine ⟨h.untried, h.unreached, fun hn => ?_, h.probes, fun u hd hu hl => ?_⟩
    · by_cases ht : t = .hardware
      · exact (hpost (ht ▸ trivial)).2 ht
      · exact h.tiers fun hh => hn ⟨fun heq => ht heq.symm, hh⟩
    · by_cases ht : u = t
      · subst ht
        exact (hpost hd).1 hl
      · exact h.left u hd (fun hh => hu ⟨ht, hh⟩) hl
  safe L t p x y hb hseen hnl hinv := begins_report hb hseen hnl hinv

end TtWind
