import Mathlib.Data.Set.Insert
import Mathlib.Order.WellFounded
import TtWind.Effect.During

/-!
# Locks taken in order

`Locking` says which operations of a system take, give back or pass a lock, and who holds each
lock in a world. A program is `Ordered` if it takes a lock, or passes one, only above those it
holds, gives back only what it holds, and holds nothing when it ends. If every call that begins
is ordered, the locks are held by live threads alone (`Tracked`), and a thread that waits for a lock
waits in the end for one that can step (`Tracked.unblocks`): whoever holds a lock waits for greater
ones alone.
-/

set_option autoImplicit false

namespace TtWind.Effect

open Prog

/-- What an operation does with the locks: it takes one, gives one back, passes one (which has to
be free then), or does nothing with them. -/
inductive LockUse (L : Type) where
  | takes (l : L)
  | gives (l : L)
  | passes (l : L)
  | spares

/-- The locks of a system. -/
structure Locking (S : Sig) (T W L : Type) where
  use : S.Op → LockUse L
  holder : W → L → Option T

namespace Locking

variable {S : Sig} {T E W L : Type} {α β : Type}

section Programs

variable (K : Locking S T W L) [LT L]

/-- With these locks held, the operation may come next. -/
def allows (held : Set L) (o : S.Op) : Prop :=
  match K.use o with
  | .takes l | .passes l => ∀ l' ∈ held, l' < l
  | .gives l => l ∈ held
  | .spares => True

/-- The locks held after an operation. -/
def next (ev : (o : S.Op) × S.Ans o) (held : Set L) : Set L :=
  match K.use ev.1 with
  | .takes l => insert l held
  | .gives l => held \ {l}
  | _ => held

/-- The program takes its locks in order, and goes from one set of locks to another. -/
abbrev Carries (p : Prog S α) (held held' : Set L) : Prop :=
  p.Follows K.allows K.next (fun s _ => s = held') held

/-- The program takes its locks in order, and gives back all of them. -/
abbrev Ordered (p : Prog S α) : Prop := K.Carries p ∅ ∅

variable {K} {held held' held'' : Set L}

theorem Carries.bind {p : Prog S α} {f : α → Prog S β} (hp : K.Carries p held held')
    (hf : ∀ a, K.Carries (f a) held' held'') : K.Carries (p >>= f) held held'' := by
  apply Follows.bind hp
  intro s a hs
  rw [hs]
  exact hf a

theorem carries_pure (a : α) : K.Carries (Pure.pure a : Prog S α) held held := follows_pure rfl

/-- A program whose operations are allowed and move no lock. -/
theorem carries_of_only {K' : S.Op → Prop} {p : Prog S α} (hp : p.Only K')
    (hallows : ∀ o, K' o → K.allows held o) (hnext : ∀ o x, K' o → K.next ⟨o, x⟩ held = held) :
    K.Carries p held held := hp.follows hallows hnext

/-- A lock is taken above those that are held. -/
theorem carries_takes {l : L} {o : S.Op} {k : S.Ans o → Prog S α} (ho : K.use o = .takes l)
    (habove : ∀ l' ∈ held, l' < l) (hk : ∀ x, K.Carries (k x) (insert l held) held') :
    K.Carries (.vis o k) held held' := by
  refine ⟨?_, fun x => ?_⟩
  · unfold allows
    rw [ho]
    exact habove
  · have hnext : K.next ⟨o, x⟩ held = insert l held := by
      unfold next
      rw [ho]
    rw [hnext]
    exact hk x

/-- A lock that is held is given back. -/
theorem carries_gives {l : L} {o : S.Op} {k : S.Ans o → Prog S α} (ho : K.use o = .gives l) (hl : l ∈ held)
    (hk : ∀ x, K.Carries (k x) (held \ {l}) held') : K.Carries (.vis o k) held held' := by
  refine ⟨?_, fun x => ?_⟩
  · unfold allows
    rw [ho]
    exact hl
  · have hnext : K.next ⟨o, x⟩ held = held \ {l} := by
      unfold next
      rw [ho]
    rw [hnext]
    exact hk x

end Programs

/-! ## The locks of a run -/

/-- What an operation of a thread makes of the holders. -/
def Turns [DecidableEq L] (K : Locking S T W L) (t : T) (o : S.Op) (h h' : L → Option T) : Prop :=
  match K.use o with
  | .takes l => h l = none ∧ h' = Function.update h l (some t)
  | .gives l => h' = Function.update h l none
  | .passes _ | .spares => h' = h

/-- The lock that an operation has to find free is free. -/
def Free (K : Locking S T W L) (o : S.Op) (h : L → Option T) : Prop :=
  match K.use o with
  | .takes l | .passes l => h l = none
  | _ => True

/-- The operation gives back what is held. -/
def Due (K : Locking S T W L) (t : T) (o : S.Op) (h : L → Option T) : Prop :=
  match K.use o with
  | .gives l => h l = some t
  | _ => True

/-- The system treats its locks as such: nothing else moves them, and nothing but a lock that is held,
or one that is given back without being held, can stop a thread. -/
structure Lawful [DecidableEq L] (K : Locking S T W L) (Y : System S T E W) : Prop where
  initial : ∀ {w}, Y.initial w → ∀ l, K.holder w l = none
  exec : ∀ {t o e w x w'}, Y.exec t o e w = some (x, w') → K.Turns t o (K.holder w) (K.holder w')
  enabled : ∀ {t o w}, K.Free o (K.holder w) → K.Due t o (K.holder w) → ∃ e x w', Y.exec t o e w = some (x, w')
  begins : ∀ {M t p w w'}, Y.begins M t p w w' → K.holder w' = K.holder w
  ends : ∀ {t w w'}, Y.ends t w w' → K.holder w' = K.holder w
  env : ∀ {w w'}, Y.env w w' → K.holder w' = K.holder w

/-- What each thread holds, and that what is left of its call gives it back in order. -/
structure Tracked [LT L] (K : Locking S T W L) (c : Config S T W) (held : T → Set L) : Prop where
  follows : ∀ {t p}, c.pool t = some p → K.Carries p (held t) ∅
  idle : ∀ {t}, c.pool t = none → held t = ∅
  holds : ∀ t l, K.holder c.world l = some t ↔ l ∈ held t

variable [DecidableEq T] [DecidableEq L] [LT L] {K : Locking S T W L} {held : T → Set L}

/-- The holders after an operation, if the thread holds what it gives back. -/
theorem holds_turns {h h' : L → Option T} {t : T} {o : S.Op} {x : S.Ans o} (hallows : K.allows (held t) o)
    (hturns : K.Turns t o h h') (hh : ∀ u l, h l = some u ↔ l ∈ held u) (u : T) (l : L) :
    h' l = some u ↔ l ∈ Function.update held t (K.next ⟨o, x⟩ (held t)) u := by
  unfold Turns at hturns
  unfold allows at hallows
  unfold next
  cases hk : K.use o with
  | takes k =>
    simp only [hk] at hturns ⊢
    obtain ⟨hfree, rfl⟩ := hturns
    have hnone : ∀ v, k ∉ held v := by
      intro v hv
      rw [(hh v k).mpr hv] at hfree
      cases hfree
    by_cases hu : u = t
    · subst hu
      by_cases hl : l = k
      · simp [hl]
      · simp [hl, hh]
    · by_cases hl : l = k
      · simp [hl, hu, hnone, Ne.symm hu]
      · simp [hl, hu, hh]
  | gives k =>
    simp only [hk] at hturns hallows ⊢
    obtain rfl := hturns
    have hholds : h k = some t := (hh t k).mpr hallows
    by_cases hu : u = t
    · subst hu
      by_cases hl : l = k
      · simp [hl]
      · simp [hl, hh]
    · have hnot : k ∉ held u := by
        intro hk
        have hsame := (hh u k).mpr hk
        rw [hholds] at hsame
        exact hu (Option.some.inj hsame).symm
      by_cases hl : l = k
      · simp [hl, hu, hnot]
      · simp [hl, hu, hh]
  | passes k =>
    simp only [hk] at hturns ⊢
    rw [hturns, hh, Function.update_eq_self]
  | spares =>
    simp only [hk] at hturns ⊢
    rw [hturns, hh, Function.update_eq_self]

end Locking

/-! ## Who holds what -/

section Holders

variable {S : Sig} {T W L : Type} {K : Locking S T W L} {c : Config S T W}

open Locking

namespace Locking.Tracked

variable [LT L] {held : T → Set L}

/-- Only live threads hold locks. -/
theorem live (h : K.Tracked c held) {t : T} {l : L} (hl : K.holder c.world l = some t) : c.live t := by
  intro hnone
  have hmem := (h.holds t l).mp hl
  rw [h.idle hnone] at hmem
  exact hmem

/-- A thread whose call is over holds no lock. -/
theorem done (h : K.Tracked c held) {t : T} (hp : c.pool t = some (.pure ())) (l : L) :
    K.holder c.world l ≠ some t := by
  intro hl
  have hempty : held t = ∅ := h.follows hp
  have hmem := (h.holds t l).mp hl
  rw [hempty] at hmem
  exact hmem

/-- What a thread waits for lies above what it holds. -/
theorem above (h : K.Tracked c held) {t : T} {o : S.Op} {k : S.Ans o → Prog S Unit}
    (hp : c.pool t = some (.vis o k)) {l l' : L} (ho : K.use o = .takes l ∨ K.use o = .passes l)
    (hl : K.holder c.world l' = some t) : l' < l := by
  have hallows : K.allows (held t) o := (h.follows hp).1
  have hmem := (h.holds t l').mp hl
  unfold allows at hallows
  rcases ho with ho | ho
  · rw [ho] at hallows
    exact hallows l' hmem
  · rw [ho] at hallows
    exact hallows l' hmem

/-- A thread gives back what it holds. -/
theorem due (h : K.Tracked c held) {t : T} {o : S.Op} {k : S.Ans o → Prog S Unit}
    (hp : c.pool t = some (.vis o k)) : K.Due t o (K.holder c.world) := by
  have hallows : K.allows (held t) o := (h.follows hp).1
  unfold allows at hallows
  unfold Due
  split
  · rename_i l ho
    rw [ho] at hallows
    exact (h.holds t l).mpr hallows
  · trivial

end Locking.Tracked

end Holders

/-! ## Runs -/

section Runs

open Locking

variable {S : Sig} {T E W L : Type} [DecidableEq T] [DecidableEq L] {Y : System S T E W} {c : Config S T W}
  {allow : T → S.Op → W → Prop} {K : Locking S T W L}

/-- A thread can step: its call is over, or its next operation can be performed. -/
def Config.CanStep (Y : System S T E W) (c : Config S T W) (t : T) : Prop :=
  c.pool t = some (.pure ()) ∨ ∃ o x c', Own Y anyStep t o x c c'

/-- If every call that begins is ordered, then in every reachable configuration it is told what each
thread holds. -/
theorem Reach.tracked [LT L] (hY : K.Lawful Y) (hordered : ∀ {M t p w w'}, Y.begins M t p w w' → K.Ordered p)
    (h : Reach Y allow c) : ∃ held, K.Tracked c held := by
  obtain ⟨w, hw, hr⟩ := h
  induction hr with
  | refl =>
    refine ⟨fun _ => ∅, ⟨(fun hp => by cases hp), fun _ => rfl, fun t l => ?_⟩⟩
    rw [hY.initial hw l]
    simp
  | @tail c₁ c₂ _ hs ih =>
    obtain ⟨held, hk⟩ := ih
    cases hs with
    | @begins t p w' hnone hb =>
      refine ⟨held, ⟨fun {u q} hq => ?_, fun {u} hq => ?_, fun u l => ?_⟩⟩
      · by_cases hu : u = t
        · subst hu
          rw [Config.set_pool_self] at hq
          obtain rfl := Option.some.inj hq
          rw [hk.idle hnone]
          exact hordered hb
        · rw [Config.set_pool_ne _ _ _ hu] at hq
          exact hk.follows hq
      · by_cases hu : u = t
        · rw [hu]
          exact hk.idle hnone
        · rw [Config.set_pool_ne _ _ _ hu] at hq
          exact hk.idle hq
      · rw [Config.set_world, hY.begins hb]
        exact hk.holds u l
    | @exec t o k e x w' hp _ he =>
      have hfollows := hk.follows hp
      refine ⟨Function.update held t (K.next ⟨o, x⟩ (held t)), ⟨fun {u q} hq => ?_, fun {u} hq => ?_, fun u l => ?_⟩⟩
      · by_cases hu : u = t
        · subst hu
          rw [Config.set_pool_self] at hq
          obtain rfl := Option.some.inj hq
          rw [Function.update_self]
          exact hfollows.2 x
        · rw [Config.set_pool_ne _ _ _ hu] at hq
          rw [Function.update_of_ne hu]
          exact hk.follows hq
      · by_cases hu : u = t
        · subst hu
          rw [Config.set_pool_self] at hq
          cases hq
        · rw [Config.set_pool_ne _ _ _ hu] at hq
          rw [Function.update_of_ne hu]
          exact hk.idle hq
      · exact holds_turns hfollows.1 (hY.exec he) hk.holds u l
    | @ends t w' hp he =>
      refine ⟨held, ⟨fun {u q} hq => ?_, fun {u} hq => ?_, fun u l => ?_⟩⟩
      · by_cases hu : u = t
        · subst hu
          rw [Config.set_pool_self] at hq
          cases hq
        · rw [Config.set_pool_ne _ _ _ hu] at hq
          exact hk.follows hq
      · by_cases hu : u = t
        · rw [hu]
          exact hk.follows hp
        · rw [Config.set_pool_ne _ _ _ hu] at hq
          exact hk.idle hq
      · rw [Config.set_world, hY.ends he]
        exact hk.holds u l
    | @env w' he =>
      refine ⟨held, ⟨hk.follows, hk.idle, fun u l => ?_⟩⟩
      show K.holder w' l = some u ↔ _
      rw [hY.env he]
      exact hk.holds u l

/-- A thread waits for a lock that another holds: its next operation takes or passes it. -/
def Config.WaitsFor (K : Locking S T W L) (c : Config S T W) (t u : T) : Prop :=
  ∃ o k l, c.pool t = some (.vis o k) ∧ (K.use o = .takes l ∨ K.use o = .passes l) ∧
    K.holder c.world l = some u

namespace Locking.Tracked

variable [Preorder L] {held : T → Set L}

/-- A live thread that cannot step waits for a lock that is held. -/
theorem waits (h : K.Tracked c held) (hY : K.Lawful Y) {t : T} (ht : c.live t) (hstuck : ¬ c.CanStep Y t) :
    ∃ o k l u, c.pool t = some (.vis o k) ∧ (K.use o = .takes l ∨ K.use o = .passes l) ∧
      K.holder c.world l = some u := by
  obtain ⟨p, hp⟩ := Option.ne_none_iff_exists'.mp ht
  cases p with
  | pure a => exact absurd (.inl hp) hstuck
  | vis o k =>
    have hheld : ¬ K.Free o (K.holder c.world) := by
      intro hfree
      obtain ⟨e, x, w', he⟩ := hY.enabled hfree (h.due hp)
      exact hstuck (.inr ⟨o, x, _, .exec hp trivial he⟩)
    unfold Free at hheld
    split at hheld
    · rename_i l ho
      obtain ⟨u, hu⟩ := Option.ne_none_iff_exists'.mp hheld
      exact ⟨o, k, l, u, hp, .inl ho, hu⟩
    · rename_i l ho
      obtain ⟨u, hu⟩ := Option.ne_none_iff_exists'.mp hheld
      exact ⟨o, k, l, u, hp, .inr ho, hu⟩
    · exact absurd trivial hheld

/-- Whoever holds a lock waits, if at all, for one above it; so the threads it waits for, one behind
the other, end in one that can step. -/
theorem unblocks_holder [WellFoundedGT L] (h : K.Tracked c held) (hY : K.Lawful Y) (l : L) :
    ∀ {u}, K.holder c.world l = some u →
      ∃ v, Relation.ReflTransGen (c.WaitsFor K) u v ∧ c.live v ∧ c.CanStep Y v := by
  induction l using WellFoundedGT.induction with
  | ind l ih =>
    intro u hu
    have hlive : c.live u := h.live hu
    by_cases hcan : c.CanStep Y u
    · exact ⟨u, .refl, hlive, hcan⟩
    · obtain ⟨o, k, l', u', hp, ho, hu'⟩ := h.waits hY hlive hcan
      have habove : l < l' := h.above hp ho hu
      obtain ⟨v, hwaits, hv⟩ := ih l' habove hu'
      exact ⟨v, .head ⟨o, k, l', hp, ho, hu'⟩ hwaits, hv⟩

/-- A live thread can step, or waits, one thread behind the other, for one that can. -/
theorem unblocks [WellFoundedGT L] (h : K.Tracked c held) (hY : K.Lawful Y) {t : T} (ht : c.live t) :
    ∃ u, Relation.ReflTransGen (c.WaitsFor K) t u ∧ c.live u ∧ c.CanStep Y u := by
  by_cases hcan : c.CanStep Y t
  · exact ⟨t, .refl, ht, hcan⟩
  · obtain ⟨o, k, l, u, hp, ho, hu⟩ := h.waits hY ht hcan
    obtain ⟨v, hwaits, hv⟩ := h.unblocks_holder hY l hu
    exact ⟨v, .head ⟨o, k, l, hp, ho, hu⟩ hwaits, hv⟩

end Locking.Tracked

end Runs

end TtWind.Effect
