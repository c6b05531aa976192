import Mathlib.Logic.Function.Basic
import Mathlib.Logic.Relation
import TtWind.Effect.Prog

/-!
# Threads over effect programs, and rely–guarantee reasoning

A `Machine` gives each operation its meaning: what a thread's operation does
to the shared world, given a choice made by the environment (a device answer,
an allocation outcome). `Solo` runs one program alone. A `System` adds threads:
each runs a program, one operation at a time, and steps of different threads
and moves of the environment interleave freely.

The proof rule is rely–guarantee. `Protocol` names what each thread may assume
of the others (`rely`), what its own steps keep (`guar`), what must hold when it
performs an operation (`pre`), and an invariant of the world and the set of live
threads (`inv`). `Protocol.Safe` says one program keeps its side;
`Protocol.Sound.reach` says that then every reachable configuration is good.
`allow` restricts the runs: a step of a thread is taken only in worlds it
allows, which states a result about "runs all of whose steps meet a condition".
-/

set_option autoImplicit false

namespace TtWind.Effect

variable {S : Sig} {T E W : Type} {α β : Type}

/-- The meaning of the operations: thread, operation, the environment's choice. -/
structure Machine (S : Sig) (T E W : Type) where
  exec : T → (o : S.Op) → E → W → Option (S.Ans o × W)

/-! ## One program alone -/

/-- The program runs alone from one world to another and returns a value. -/
inductive Solo (M : Machine S T E W) (t : T) : Prog S α → W → α → W → Prop where
  | pure (a : α) (w : W) : Solo M t (.pure a) w a w
  | vis {o : S.Op} {k : S.Ans o → Prog S α} {e : E} {w w₁ w₂ : W} {x : S.Ans o} {a : α} :
      M.exec t o e w = some (x, w₁) → Solo M t (k x) w₁ a w₂ → Solo M t (.vis o k) w a w₂

namespace Solo

variable {M : Machine S T E W} {t : T} {w w' : W}

theorem pure_iff {a b : α} : Solo M t (Pure.pure a : Prog S α) w b w' ↔ b = a ∧ w' = w :=
  ⟨fun h => by cases h; exact ⟨rfl, rfl⟩, fun ⟨hb, hw⟩ => by subst hb hw; exact .pure _ _⟩

theorem vis_iff {o : S.Op} {k : S.Ans o → Prog S α} {a : α} :
    Solo M t (.vis o k) w a w' ↔
      ∃ e x w₁, M.exec t o e w = some (x, w₁) ∧ Solo M t (k x) w₁ a w' := by
  constructor
  · intro h
    cases h with
    | vis he hk => exact ⟨_, _, _, he, hk⟩
  · rintro ⟨e, x, w₁, he, hk⟩
    exact .vis he hk

theorem perform_iff {o : S.Op} {x : S.Ans o} :
    Solo M t (Prog.perform o) w x w' ↔ ∃ e, M.exec t o e w = some (x, w') := by
  constructor
  · intro h
    obtain ⟨e, y, w₁, he, hk⟩ := vis_iff.mp h
    cases hk
    exact ⟨e, he⟩
  · rintro ⟨e, he⟩
    exact Solo.vis he (.pure x w')

theorem bind_iff {p : Prog S α} {f : α → Prog S β} {b : β} :
    Solo M t (p >>= f) w b w' ↔ ∃ a w₁, Solo M t p w a w₁ ∧ Solo M t (f a) w₁ b w' := by
  induction p generalizing w with
  | pure a =>
    constructor
    · intro h
      exact ⟨a, w, .pure a w, h⟩
    · rintro ⟨a', w₁, h, hf⟩
      cases h
      exact hf
  | vis o k ih =>
    rw [Prog.vis_bind, vis_iff]
    constructor
    · rintro ⟨e, x, w₁, he, hk⟩
      obtain ⟨a, w₂, hp, hf⟩ := (ih x).mp hk
      exact ⟨a, w₂, .vis he hp, hf⟩
    · rintro ⟨a, w₂, hp, hf⟩
      obtain ⟨e, x, w₁, he, hk⟩ := vis_iff.mp hp
      exact ⟨e, x, w₁, he, (ih x).mpr ⟨a, w₂, hk, hf⟩⟩

/-- What a run alone performed led it to its value. -/
theorem leads {p : Prog S α} {a : α} (h : Solo M t p w a w') :
    ∃ evs, p.Leads evs (.pure a) := by
  induction h with
  | pure a w => exact ⟨[], .start⟩
  | vis _ _ ih =>
    obtain ⟨evs, hl⟩ := ih
    exact ⟨_, hl.prepend⟩

/-- A relation every operation of the footprint keeps, reflexive and transitive, holds
from the start of a run to its end. -/
theorem keeps {K : S.Op → Prop} {F : W → W → Prop} (refl : ∀ w, F w w)
    (trans : ∀ {u v w}, F u v → F v w → F u w)
    (step : ∀ o, K o → ∀ {e w x w₁}, M.exec t o e w = some (x, w₁) → F w w₁)
    {p : Prog S α} (hp : p.Only K) {a : α} (h : Solo M t p w a w') : F w w' := by
  induction h with
  | pure a w => exact refl w
  | vis he _ ih => exact trans (step _ hp.1 he) (ih (hp.2 _ trivial))

end Solo

namespace Machine

variable (M : Machine S T E W) (t : T)

/-- A program alone, with the environment's choices given. It uses up all of them. -/
def replay : Prog S α → List E → W → Option (α × W)
  | .pure a, [], w => some (a, w)
  | .pure _, _ :: _, _ => none
  | .vis _ _, [], _ => none
  | .vis o k, e :: es, w =>
    match M.exec t o e w with
    | none => none
    | some (x, w₁) => replay (k x) es w₁

variable {M t} {w w' : W}

theorem replay_pure {a b : α} {es : List E} :
    M.replay t (Pure.pure a : Prog S α) es w = some (b, w') ↔ es = [] ∧ b = a ∧ w' = w := by
  cases es with
  | nil =>
    constructor
    · intro h
      cases h
      exact ⟨rfl, rfl, rfl⟩
    · rintro ⟨-, rfl, rfl⟩
      rfl
  | cons e es =>
    constructor
    · intro h
      cases h
    · rintro ⟨h, -⟩
      cases h

theorem replay_vis {o : S.Op} {k : S.Ans o → Prog S α} {es : List E} {r : α × W} :
    M.replay t (.vis o k) es w = some r ↔
      ∃ e es' x w₁, es = e :: es' ∧ M.exec t o e w = some (x, w₁) ∧
        M.replay t (k x) es' w₁ = some r := by
  cases es with
  | nil =>
    constructor
    · intro h
      cases h
    · rintro ⟨e, es', x, w₁, h, -⟩
      cases h
  | cons e es =>
    cases he : M.exec t o e w with
    | none =>
      simp only [replay, he, List.cons.injEq]
      constructor
      · intro h
        cases h
      · rintro ⟨e', es', x, w₁, ⟨rfl, rfl⟩, hx, -⟩
        rw [he] at hx
        cases hx
    | some r₁ =>
      obtain ⟨x, w₁⟩ := r₁
      simp only [replay, he, List.cons.injEq]
      constructor
      · intro h
        exact ⟨e, es, x, w₁, ⟨rfl, rfl⟩, he, h⟩
      · rintro ⟨e', es', x', w₂, ⟨rfl, rfl⟩, hx, h⟩
        rw [he, Option.some.injEq, Prod.mk.injEq] at hx
        obtain ⟨rfl, rfl⟩ := hx
        exact h

theorem replay_perform {o : S.Op} {es : List E} {x : S.Ans o} :
    M.replay t (Prog.perform o) es w = some (x, w') ↔
      ∃ e, es = [e] ∧ M.exec t o e w = some (x, w') := by
  rw [Prog.perform, replay_vis]
  constructor
  · rintro ⟨e, es', y, w₁, rfl, he, hk⟩
    obtain ⟨rfl, rfl, rfl⟩ := replay_pure.mp hk
    exact ⟨e, rfl, he⟩
  · rintro ⟨e, rfl, he⟩
    exact ⟨e, [], x, w', rfl, he, rfl⟩

/-- The choices of a sequence are those of its first part, then those of its second. -/
theorem replay_bind {p : Prog S α} {f : α → Prog S β} {es : List E} {r : β × W} :
    M.replay t (p >>= f) es w = some r ↔
      ∃ es₁ es₂ a w₁, es = es₁ ++ es₂ ∧ M.replay t p es₁ w = some (a, w₁) ∧
        M.replay t (f a) es₂ w₁ = some r := by
  induction p generalizing es w with
  | pure a =>
    constructor
    · intro h
      exact ⟨[], es, a, w, rfl, rfl, h⟩
    · rintro ⟨es₁, es₂, a', w₁, rfl, hp, hf⟩
      obtain ⟨rfl, rfl, rfl⟩ := replay_pure.mp hp
      exact hf
  | vis o k ih =>
    rw [Prog.vis_bind, replay_vis]
    constructor
    · rintro ⟨e, es', x, w₁, rfl, he, hk⟩
      obtain ⟨es₁, es₂, a, w₂, rfl, hp, hf⟩ := (ih x).mp hk
      exact ⟨e :: es₁, es₂, a, w₂, rfl, replay_vis.mpr ⟨e, es₁, x, w₁, rfl, he, hp⟩, hf⟩
    · rintro ⟨es₁, es₂, a, w₂, rfl, hp, hf⟩
      obtain ⟨e, es', x, w₁, rfl, he, hk⟩ := replay_vis.mp hp
      exact ⟨e, es' ++ es₂, x, w₁, rfl, he, (ih x).mpr ⟨es', es₂, a, w₂, rfl, hk, hf⟩⟩

end Machine

/-- A run alone is a replay of some choices. -/
theorem Solo.iff_replay {M : Machine S T E W} {t : T} {p : Prog S α} {w w' : W} {a : α} :
    Solo M t p w a w' ↔ ∃ es, M.replay t p es w = some (a, w') := by
  constructor
  · intro h
    induction h with
    | pure a w => exact ⟨[], rfl⟩
    | @vis o k e w w₁ w₂ x a he _ ih =>
      obtain ⟨es, h⟩ := ih
      exact ⟨e :: es, Machine.replay_vis.mpr ⟨e, es, x, w₁, rfl, he, h⟩⟩
  · rintro ⟨es, h⟩
    induction p generalizing es w with
    | pure b =>
      obtain ⟨-, rfl, rfl⟩ := Machine.replay_pure.mp h
      exact .pure _ _
    | vis o k ih =>
      obtain ⟨e, es', x, w₁, -, he, hk⟩ := Machine.replay_vis.mp h
      exact .vis he (ih x es' hk)

/-- A replay that ends as tested is a run that does. -/
theorem Solo.exists_of_replay {M : Machine S T E W} {t : T} {p : Prog S α} {es : List E} {w : W}
    {b : α × W → Bool} (h : (M.replay t p es w).any b = true) :
    ∃ a w', Solo M t p w a w' ∧ b (a, w') = true := by
  cases hr : M.replay t p es w with
  | none => simp [hr] at h
  | some r =>
    obtain ⟨a, w'⟩ := r
    exact ⟨a, w', Solo.iff_replay.mpr ⟨es, hr⟩, by simpa [hr] using h⟩

/-! ## Threads -/

/-- A machine with threads: which programs a thread may begin, given the set of live
threads, what ending one does, and what the environment does by itself. -/
structure System (S : Sig) (T E W : Type) extends Machine S T E W where
  initial : W → Prop
  begins : (T → Prop) → T → Prog S Unit → W → W → Prop
  ends : T → W → W → Prop
  env : W → W → Prop

/-- A world and the program each live thread still has to run. -/
structure Config (S : Sig) (T W : Type) where
  world : W
  pool : T → Option (Prog S Unit)

/-- The live threads. -/
def Config.live (c : Config S T W) (t : T) : Prop := c.pool t ≠ none

variable [DecidableEq T]

/-- The world changes to `w`, and thread `t` has `q` left to run. -/
def Config.set (c : Config S T W) (w : W) (t : T) (q : Option (Prog S Unit)) : Config S T W :=
  ⟨w, Function.update c.pool t q⟩

@[simp] theorem Config.set_world (c : Config S T W) (w : W) (t : T) (q : Option (Prog S Unit)) :
    (c.set w t q).world = w := rfl

@[simp] theorem Config.set_pool_self (c : Config S T W) (w : W) (t : T)
    (q : Option (Prog S Unit)) : (c.set w t q).pool t = q := by
  simp only [Config.set, Function.update_self]

theorem Config.set_pool_ne (c : Config S T W) (w : W) {t u : T} (q : Option (Prog S Unit))
    (h : u ≠ t) : (c.set w t q).pool u = c.pool u := by
  simp only [Config.set, Function.update_of_ne h]

theorem Config.set_live_ne (c : Config S T W) (w : W) {t u : T} (q : Option (Prog S Unit))
    (h : u ≠ t) : (c.set w t q).live u = c.live u := by
  rw [Config.live, Config.live, c.set_pool_ne w q h]

/-- One step of the system; `allow` restricts the operations performed. -/
inductive Step (Y : System S T E W) (allow : T → S.Op → W → Prop) :
    Config S T W → Config S T W → Prop where
  | begins {c : Config S T W} {t : T} {p : Prog S Unit} {w : W} :
      c.pool t = none → Y.begins c.live t p c.world w →
      Step Y allow c (c.set w t (some p))
  | exec {c : Config S T W} {t : T} {o : S.Op} {k : S.Ans o → Prog S Unit} {e : E}
      {x : S.Ans o} {w : W} :
      c.pool t = some (.vis o k) → allow t o c.world → Y.exec t o e c.world = some (x, w) →
      Step Y allow c (c.set w t (some (k x)))
  | ends {c : Config S T W} {t : T} {w : W} :
      c.pool t = some (.pure ()) → Y.ends t c.world w →
      Step Y allow c (c.set w t none)
  | env {c : Config S T W} {w : W} : Y.env c.world w → Step Y allow c ⟨w, c.pool⟩

/-- A run: any number of steps. -/
def Run (Y : System S T E W) (allow : T → S.Op → W → Prop) :
    Config S T W → Config S T W → Prop := Relation.ReflTransGen (Step Y allow)

/-- Reachable from an initial world in which no thread is live. -/
def Reach (Y : System S T E W) (allow : T → S.Op → W → Prop) (c : Config S T W) : Prop :=
  ∃ w, Y.initial w ∧ Run Y allow ⟨w, fun _ => none⟩ c

/-- No restriction on the operations performed. -/
def anyStep (_ : T) (_ : S.Op) (_ : W) : Prop := True

theorem Reach.step {Y : System S T E W} {allow : T → S.Op → W → Prop} {c c' : Config S T W}
    (h : Reach Y allow c) (hs : Step Y allow c c') : Reach Y allow c' :=
  let ⟨w, hw, hr⟩ := h
  ⟨w, hw, hr.tail hs⟩

theorem Reach.run {Y : System S T E W} {allow : T → S.Op → W → Prop} {c c' : Config S T W}
    (h : Reach Y allow c) (hs : Run Y allow c c') : Reach Y allow c' :=
  let ⟨w, hw, hr⟩ := h
  ⟨w, hw, hr.trans hs⟩

/-- What a program does alone, its thread can do in the system. -/
theorem Solo.run {Y : System S T E W} {t : T} {p : Prog S α} {a : α} {w w' : W}
    (h : Solo Y.toMachine t p w a w') (f : α → Prog S Unit) (pool : T → Option (Prog S Unit))
    (hp : pool t = some (p >>= f)) :
    Run Y anyStep ⟨w, pool⟩ (Config.set ⟨w, pool⟩ w' t (some (f a))) := by
  induction h generalizing pool with
  | pure a w =>
    have hsame : Config.set (⟨w, pool⟩ : Config S T W) w t (some (f a)) = ⟨w, pool⟩ := by
      have hpure : some (f a) = pool t := hp.symm
      rw [Config.set, hpure, Function.update_eq_self]
    rw [hsame]
    exact .refl
  | vis he _ ih =>
    refine .head (.exec hp trivial he) ?_
    have hrest := ih _ (Function.update_self t (some (_ >>= f)) pool)
    rwa [Config.set, Function.update_idem] at hrest

/-- A step is allowed by what holds of the operation it performs. -/
theorem Step.restrict {Y : System S T E W} {allow allow' : T → S.Op → W → Prop} {c c' : Config S T W}
    (h : ∀ (t : T) (o : S.Op) (k : S.Ans o → Prog S Unit), c.pool t = some (.vis o k) →
      allow t o c.world → allow' t o c.world)
    (hs : Step Y allow c c') : Step Y allow' c c' := by
  cases hs with
  | begins hnone hb => exact .begins hnone hb
  | exec hpool ha he => exact .exec hpool (h _ _ _ hpool ha) he
  | ends hpool he => exact .ends hpool he
  | env he => exact .env he

/-- What holds of every operation about to be performed may be taken as allowed alone. -/
theorem Reach.restrict {Y : System S T E W} {allow allow' : T → S.Op → W → Prop}
    (h : ∀ (c : Config S T W) (t : T) (o : S.Op) (k : S.Ans o → Prog S Unit), Reach Y allow c →
      c.pool t = some (.vis o k) → allow t o c.world → allow' t o c.world)
    {c : Config S T W} (hc : Reach Y allow c) : Reach Y allow' c := by
  obtain ⟨w, hw, hr⟩ := hc
  induction hr with
  | refl => exact ⟨w, hw, .refl⟩
  | @tail c₁ c₂ hr hs ih => exact ih.step (hs.restrict fun t o k => h c₁ t o k ⟨w, hw, hr⟩)

theorem Reach.any {Y : System S T E W} {allow : T → S.Op → W → Prop} {c : Config S T W}
    (h : Reach Y allow c) : Reach Y anyStep c := h.restrict fun _ _ _ _ _ _ _ => trivial

end TtWind.Effect
