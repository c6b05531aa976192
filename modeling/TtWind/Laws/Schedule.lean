import TtWind.Effect.During
import TtWind.Driver.Schedule
import TtWind.Laws.Frame

/-!
# Schedules are runs
-/

set_option autoImplicit false

namespace TtWind.DriverConfig

open TtWind.Effect

variable {ok : Tid → Op → World → Bool} {allow : Tid → Op → World → Prop}

/-- The test of a schedule implies the restriction of a run. -/
abbrev Implies (ok : Tid → Op → World → Bool) (allow : Tid → Op → World → Prop) : Prop :=
  ∀ t o w, ok t o w = true → allow t o w

theorem implies_anyStep (ok : Tid → Op → World → Bool) :
    Implies ok (anyStep (S := DriverSig)) := fun _ _ _ _ => trivial

/-- Operations of a thread are steps of its own, in the middle of its call. -/
theorem during_of_ops (h : Implies ok allow) {t : Tid} {es : List Choice} {c c' : DriverConfig}
    (hc : ops ok t es c = some c') : During driver allow t c c' := by
  induction es generalizing c with
  | nil =>
    obtain rfl := Option.some.inj hc
    exact .refl
  | cons e es ih =>
    simp only [ops] at hc
    split at hc
    · rename_i o k hp
      split at hc
      · rename_i hok
        split at hc
        · rename_i x w he
          have hlive : (c.set w t (some (k x))).live t := by
            rw [Config.live, Config.set_pool_self]
            intro h
            cases h
          exact .head ⟨.exec hp (h _ _ _ hok) he, hlive⟩ (ih hc)
        · cases hc
      · cases hc
    · cases hc

theorem run_of_ops (h : Implies ok allow) {t : Tid} {es : List Choice} {c c' : DriverConfig}
    (hc : ops ok t es c = some c') : Run driver allow c c' := (during_of_ops h hc).run

theorem run_of_start {c c' : DriverConfig} {t : Tid} {p : Drv Unit} {w : World} {cond : Bool}
    (hc : start c t p w cond = some c') (hb : cond = true → Begins c.live t p c.world w) :
    Run driver allow c c' := by
  simp only [start, Option.ite_none_right_eq_some, Bool.and_eq_true, Option.isNone_iff_eq_none,
    Option.some.injEq] at hc
  obtain ⟨⟨hnone, hcond⟩, rfl⟩ := hc
  exact .single (.begins hnone (hb hcond))

theorem not_live_of_isNone {c : DriverConfig} {t : Tid} (h : (c.pool t).isNone = true) :
    ¬ c.live t := fun hl => hl (Option.isNone_iff_eq_none.mp h)

theorem run_of_move (h : Implies ok allow) {m : Move} {c c' : DriverConfig}
    (hc : move ok c m = some c') : Run driver allow c c' := by
  cases m with
  | ioctl r code p =>
    refine run_of_start hc fun hcond => ?_
    simp only [Bool.and_eq_true] at hcond
    obtain ⟨⟨hhw, hal⟩, hopen⟩ := hcond
    refine .ioctl r code p (not_live_of_isNone hhw) hal fun fo hfo => ?_
    simpa [hfo] using hopen
  | power cb p => exact run_of_start hc fun hcond => .power cb p (not_live_of_isNone hcond)
  | prepare resources p =>
    refine run_of_start hc fun hcond => ?_
    simp only [Bool.and_eq_true, Bool.not_eq_true'] at hcond
    exact .prepare resources p (not_live_of_isNone hcond.1.1) (not_live_of_isNone hcond.1.2) hcond.2
  | release p =>
    refine run_of_start hc fun hcond => ?_
    simp only [Bool.and_eq_true] at hcond
    exact .release p (not_live_of_isNone hcond.1) (not_live_of_isNone hcond.2)
  | create fo p =>
    refine run_of_start hc fun hcond => ?_
    simp only [Bool.and_eq_true, beq_iff_eq] at hcond
    exact .create fo p hcond.1 fun hl => not_live_of_isNone hcond.2 hl.1
  | cleanup fo p =>
    exact run_of_start hc fun hcond => .cleanup fo p (beq_iff_eq.mp hcond)
  | ops t es => exact run_of_ops h hc
  | ends t =>
    simp only [move] at hc
    split at hc
    · rename_i hp
      obtain rfl := Option.some.inj hc
      exact .single (.ends hp rfl)
    · cases hc
  | exits p =>
    simp only [move, Option.ite_none_right_eq_some, Option.some.injEq, beq_iff_eq] at hc
    obtain ⟨hrun, rfl⟩ := hc
    exact .single (.env (.exits p hrun))
  | gone p =>
    simp only [move, Option.ite_none_right_eq_some, Option.some.injEq, beq_iff_eq] at hc
    obtain ⟨hrun, rfl⟩ := hc
    exact .single (.env (.gone p hrun))

theorem run_of_play (h : Implies ok allow) {ms : List Move} {c c' : DriverConfig}
    (hc : play ok ms c = some c') : Run driver allow c c' := by
  induction ms generalizing c with
  | nil =>
    obtain rfl := Option.some.inj hc
    exact .refl
  | cons m ms ih =>
    obtain ⟨c₁, h₁, h₂⟩ := Option.bind_eq_some_iff.mp hc
    exact (run_of_move h h₁).trans (ih h₂)

/-- What a schedule reaches from the start is reachable. -/
theorem reach_of_play (h : Implies ok allow) {ms : List Move} {c : DriverConfig}
    (hc : play ok ms idle = some c) : Reach driver allow c :=
  ⟨{}, ⟨_, rfl⟩, run_of_play h hc⟩

/-- A schedule that ends as tested is a run that does. -/
theorem exists_reach (h : Implies ok allow) {ms : List Move} {b : DriverConfig → Bool}
    (hb : (play ok ms idle).any b = true) : ∃ c, Reach driver allow c ∧ b c = true := by
  cases hc : play ok ms idle with
  | none => simp [hc] at hb
  | some c => exact ⟨c, reach_of_play h hc, by simpa [hc] using hb⟩

end TtWind.DriverConfig

/-! ## Watched schedules -/

namespace TtWind.WatchedConfig

open TtWind.Effect

variable {G : Type} {O : Observer DriverSig Tid World G} {ok : Tid → Op → World × G → Bool}
  {allow : Tid → Op → World × G → Prop}

theorem run_of_ops (h : ∀ t o w, ok t o w = true → allow t o w) {t : Tid} {es : List Choice}
    {c c' : WatchedConfig G} (hc : ops O ok t es c = some c') :
    Run (driver.observe O) allow c c' := by
  induction es generalizing c with
  | nil =>
    obtain rfl := Option.some.inj hc
    exact .refl
  | cons e es ih =>
    simp only [ops] at hc
    split at hc
    · rename_i o k hp
      split at hc
      · rename_i hok
        split at hc
        · rename_i x w he
          exact .head (.exec hp (h _ _ _ hok) he) (ih hc)
        · cases hc
      · cases hc
    · cases hc

/-- A move without operations, seen by nobody. -/
theorem run_of_quiet {m : Move} {c : WatchedConfig G} {c' : DriverConfig}
    (hc : DriverConfig.move (fun _ _ _ => false) c.forget m = some c') :
    Run (driver.observe O) allow c (c'.watched c.world.2) := by
  have hrun : Run driver (fun _ _ _ => False) c.forget c' :=
    DriverConfig.run_of_move (fun _ _ _ h => by cases h) hc
  exact Run.watched hrun c.world.2

theorem run_of_move (h : ∀ t o w, ok t o w = true → allow t o w) {m : WatchedMove}
    {c c' : WatchedConfig G} (hc : move O ok c m = some c') :
    Run (driver.observe O) allow c c' := by
  cases m with
  | driver m =>
    cases m with
    | ops t choices => exact run_of_ops h hc
    | _ =>
      obtain ⟨c₁, h₁, rfl⟩ := Option.map_eq_some_iff.mp hc
      exact run_of_quiet h₁
  | drift n =>
    obtain ⟨g, hg, rfl⟩ := Option.map_eq_some_iff.mp hc
    exact .single (.env (.inr ⟨rfl, n, hg⟩))

theorem run_of_play (h : ∀ t o w, ok t o w = true → allow t o w) {ms : List WatchedMove}
    {c c' : WatchedConfig G} (hc : play O ok ms c = some c') :
    Run (driver.observe O) allow c c' := by
  induction ms generalizing c with
  | nil =>
    obtain rfl := Option.some.inj hc
    exact .refl
  | cons m ms ih =>
    obtain ⟨c₁, h₁, h₂⟩ := Option.bind_eq_some_iff.mp hc
    exact (run_of_move h h₁).trans (ih h₂)

/-- A watched schedule that ends as tested is a run that does. -/
theorem exists_reach (h : ∀ t o w, ok t o w = true → allow t o w) {ms : List WatchedMove} {g : G}
    (hg : O.initial {} g) {b : WatchedConfig G → Bool}
    (hb : (play O ok ms (idle.watched g)).any b = true) :
    ∃ c, Reach (driver.observe O) allow c ∧ b c = true := by
  cases hc : play O ok ms (idle.watched g) with
  | none => simp [hc] at hb
  | some c => exact ⟨c, ⟨({}, g), ⟨⟨_, rfl⟩, hg⟩, run_of_play h hc⟩, by simpa [hc] using hb⟩

/-! ### Schedules that end in a request -/

/-- What is left of a request is its completion with success. -/
def succeeds : Option (Drv Unit) → Bool
  | some (.vis (.complete s _) _) => s == .success
  | _ => false

theorem exists_of_succeeds {q : Option (Drv Unit)} (h : succeeds q = true) :
    ∃ n k, q = some (.vis (.complete .success n) k) := by
  unfold succeeds at h
  split at h
  · rename_i s n k
    obtain rfl := beq_iff_eq.mp h
    exact ⟨n, k, rfl⟩
  · cases h

theorem play_append (ms ns : List WatchedMove) (c : WatchedConfig G) :
    play O ok (ms ++ ns) c = (play O ok ms c).bind (play O ok ns) := by
  induction ms generalizing c with
  | nil => rfl
  | cons m ms ih =>
    simp only [List.cons_append, play, Option.bind_assoc]
    exact congrArg _ (funext fun c => ih c)

/-- Operations of a thread move it on in its call. -/
theorem leads_of_ops {t : Tid} {es : List Choice} {c c' : WatchedConfig G} {p q : Drv Unit}
    (hc : ops O ok t es c = some c') (hp : c.pool t = some q) (hq : p.Leads (c.world.1.hist t) q) :
    ∃ q', c'.pool t = some q' ∧ p.Leads (c'.world.1.hist t) q' := by
  induction es generalizing c q with
  | nil =>
    obtain rfl := Option.some.inj hc
    exact ⟨q, hp, hq⟩
  | cons e es ih =>
    simp only [ops] at hc
    split at hc
    · rename_i o k hvis
      obtain rfl := Option.some.inj (hp.symm.trans hvis)
      split at hc
      · split at hc
        · rename_i x w he
          refine ih hc (Config.set_pool_self _ _ _ _) ?_
          have hhist := (World.exec_frame (watched_exec he).1).hist
          rw [Config.set_world, hhist, Function.update_self]
          exact .step x hq
        · cases hc
      · cases hc
    · cases hc

/-- Operations of a thread are steps of its own, in the middle of its call. -/
theorem during_of_ops (h : ∀ t o w, ok t o w = true → allow t o w) {t : Tid} {es : List Choice}
    {c c' : WatchedConfig G} (hc : ops O ok t es c = some c') :
    During (driver.observe O) allow t c c' := by
  induction es generalizing c with
  | nil =>
    obtain rfl := Option.some.inj hc
    exact .refl
  | cons e es ih =>
    simp only [ops] at hc
    split at hc
    · rename_i o k hp
      split at hc
      · rename_i hok
        split at hc
        · rename_i x w he
          have hlive : (c.set w t (some (k x))).live t := by
            rw [Config.live, Config.set_pool_self]
            intro h
            cases h
          exact .head ⟨.exec hp (h _ _ _ hok) he, hlive⟩ (ih hc)
        · cases hc
      · cases hc
    · cases hc

/-- One operation of a thread, if it is known what comes next. -/
theorem own_of_ops (h : ∀ t o w, ok t o w = true → allow t o w) {t : Tid} {e : Choice}
    {c c' : WatchedConfig G} {o : Op} {k : o.Ans → Drv Unit} (hc : ops O ok t [e] c = some c')
    (hp : c.pool t = some (.vis o k)) : ∃ a, Own (driver.observe O) allow t o a c c' := by
  simp only [ops, hp] at hc
  split at hc
  · rename_i hok
    split at hc
    · rename_i x w he
      obtain rfl := Option.some.inj hc
      exact ⟨x, .exec hp (h _ _ _ hok) he⟩
    · cases hc
  · cases hc

/-- A schedule that ends with the beginning of a request reaches it. -/
theorem exists_reach_begun (h : ∀ t o w, ok t o w = true → allow t o w) {ms : List WatchedMove} {g : G}
    (hg : O.initial {} g) {r : Request} {code : Ioctl} {p : Process} {b : WatchedConfig G → Bool}
    (hb : (play O ok (ms ++ [.driver (.ioctl r code p)]) (idle.watched g)).any b = true) :
    ∃ c, Reach (driver.observe O) allow c ∧ b c = true ∧
      c.pool .ioctl = some (evtIoDeviceControl r.fileObject code) ∧ c.world.1.hist .ioctl = [] := by
  cases hc : play O ok (ms ++ [.driver (.ioctl r code p)]) (idle.watched g) with
  | none => simp [hc] at hb
  | some c =>
    have hreach : Reach (driver.observe O) allow c := ⟨({}, g), ⟨⟨_, rfl⟩, hg⟩, run_of_play h hc⟩
    have htest : b c = true := by simpa [hc] using hb
    rw [play_append] at hc
    obtain ⟨c₁, -, h₁⟩ := Option.bind_eq_some_iff.mp hc
    obtain ⟨c₂, h₂, h₃⟩ := Option.bind_eq_some_iff.mp h₁
    obtain rfl : c₂ = c := Option.some.inj h₃
    obtain ⟨c₃, hstart, rfl⟩ := Option.map_eq_some_iff.mp h₂
    simp only [DriverConfig.move, DriverConfig.start, Option.ite_none_right_eq_some, Option.some.injEq] at hstart
    obtain ⟨-, rfl⟩ := hstart
    refine ⟨_, hreach, htest, Config.set_pool_self _ _ _ _, ?_⟩
    show { c₁.world.1.enter .ioctl p with req := r }.hist .ioctl = []
    simp [World.enter]

/-- A schedule that ends inside a request reaches what is left of the request's code. -/
theorem exists_reach_call (h : ∀ t o w, ok t o w = true → allow t o w) {ms : List WatchedMove} {g : G}
    (hg : O.initial {} g) {r : Request} {code : Ioctl} {p : Process} {es : List Choice}
    {b : WatchedConfig G → Bool}
    (hb : (play O ok (ms ++ [.driver (.ioctl r code p), .driver (.ops .ioctl es)])
      (idle.watched g)).any b = true) :
    ∃ c q, Reach (driver.observe O) allow c ∧ b c = true ∧ c.pool .ioctl = some q ∧
      (evtIoDeviceControl r.fileObject code).Leads (c.world.1.hist .ioctl) q := by
  have hb' : (play O ok (ms ++ [.driver (.ioctl r code p)]) (idle.watched g)).any
      (fun c => (ops O ok .ioctl es c).any b) = true := by
    rw [List.append_cons, play_append] at hb
    cases hc : play O ok (ms ++ [.driver (.ioctl r code p)]) (idle.watched g) with
    | none => simp [hc] at hb
    | some c =>
      rw [hc] at hb
      simpa [play, move] using hb
  obtain ⟨c, hreach, htest, hbegun, hhist⟩ := exists_reach_begun h hg hb'
  cases hc : ops O ok .ioctl es c with
  | none => simp [hc] at htest
  | some c' =>
    have hstart : (evtIoDeviceControl r.fileObject code).Leads (c.world.1.hist .ioctl)
        (evtIoDeviceControl r.fileObject code) := by
      rw [hhist]
      exact .start
    obtain ⟨q, hq, hleads⟩ := leads_of_ops hc hbegun hstart
    exact ⟨c', q, hreach.run (run_of_ops h hc), by simpa [hc] using htest, hq, hleads⟩

end TtWind.WatchedConfig
