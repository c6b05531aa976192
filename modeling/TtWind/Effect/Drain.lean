import Mathlib.Logic.Hydra
import Mathlib.Algebra.Order.BigOperators.Group.Finset
import TtWind.Effect.Locks

/-!
# Calls that come to an end

`Works` is a step of a call under way, after whatever the environment does. Programs are finite, so
the calls under way can only take finitely many steps if no new one begins, however they are
interleaved (`works_acc`). Where locks are taken in order, they stop only when no call is left, and
then no lock is held (`Reach.drains`).
-/

set_option autoImplicit false

namespace TtWind.Effect

open Relation

section Programs

variable {S : Sig} {α : Type}

/-- What is left of a program after its first operation. -/
def Prog.Rest (q p : Prog S α) : Prop := ∃ o k x, p = .vis o k ∧ q = k x

theorem Prog.rest_wf : WellFounded (Prog.Rest (S := S) (α := α)) := by
  refine ⟨fun p => ?_⟩
  induction p with
  | pure a =>
    constructor
    rintro q ⟨o, k, x, h, -⟩
    cases h
  | vis o k ih =>
    constructor
    rintro q ⟨o', k', x, h, rfl⟩
    cases h
    exact ih x

end Programs

section Runs

variable {S : Sig} {T E W : Type} [DecidableEq T] {Y : System S T E W} {c c' : Config S T W}

/-- A call under way takes a step, after whatever the environment has done. -/
inductive Works (Y : System S T E W) : Config S T W → Config S T W → Prop where
  | exec {c : Config S T W} {w w' : W} {t : T} {o : S.Op} {k : S.Ans o → Prog S Unit} {e : E} {x : S.Ans o} :
      ReflTransGen Y.env c.world w → c.pool t = some (.vis o k) → Y.exec t o e w = some (x, w') →
      Works Y c (c.set w' t (some (k x)))
  | ends {c : Config S T W} {w w' : W} {t : T} :
      ReflTransGen Y.env c.world w → c.pool t = some (.pure ()) → Y.ends t w w' → Works Y c (c.set w' t none)

theorem run_of_env {w : W} (h : ReflTransGen Y.env c.world w) : Run Y anyStep c ⟨w, c.pool⟩ := by
  induction h with
  | refl => exact .refl
  | @tail w₁ w₂ _ hs ih => exact ih.tail (.env (c := ⟨w₁, c.pool⟩) hs)

theorem Works.run (h : Works Y c c') : Run Y anyStep c c' := by
  cases h with
  | @exec w w' t o k e x henv hp he => exact (run_of_env henv).tail (.exec (c := ⟨w, c.pool⟩) hp trivial he)
  | @ends w w' t henv hp he => exact (run_of_env henv).tail (.ends (c := ⟨w, c.pool⟩) hp he)

theorem run_of_works (h : ReflTransGen (Works Y) c c') : Run Y anyStep c c' := by
  induction h with
  | refl => exact .refl
  | tail _ hs ih => exact ih.trans hs.run

/-- The programs that threads of `s` have left. -/
def Config.left (c : Config S T W) (s : Finset T) : Multiset (Prog S Unit) :=
  ∑ t ∈ s, (c.pool t).elim 0 fun p => {p}

theorem left_set {s : Finset T} {t : T} (ht : t ∈ s) {p : Prog S Unit} (hp : c.pool t = some p) (w : W)
    (q : Option (Prog S Unit)) :
    (c.set w t q).left s + {p} = c.left s + q.elim 0 fun p => {p} := by
  have hrest : ∑ u ∈ s.erase t, ((c.set w t q).pool u).elim (0 : Multiset (Prog S Unit)) (fun p => {p}) =
      ∑ u ∈ s.erase t, (c.pool u).elim (0 : Multiset (Prog S Unit)) (fun p => {p}) := by
    apply Finset.sum_congr rfl
    intro u hu
    rw [c.set_pool_ne w q (Finset.ne_of_mem_erase hu)]
  unfold Config.left
  rw [← Finset.add_sum_erase s _ ht, ← Finset.add_sum_erase s _ ht, hrest, Config.set_pool_self, hp, Option.elim_some]
  ac_rfl

/-- A step of a call leaves less of it. -/
theorem Works.cut {s : Finset T} (hs : ∀ t, c.live t → t ∈ s) (h : Works Y c c') :
    CutExpand Prog.Rest (c'.left s) (c.left s) ∧ ∀ t, c'.live t → t ∈ s := by
  have hlive : ∀ {t : T} {w : W} {q : Option (Prog S Unit)}, t ∈ s → ∀ u, (c.set w t q).live u → u ∈ s := by
    intro t w q ht u hu
    by_cases htu : u = t
    · rw [htu]
      exact ht
    · rw [c.set_live_ne w q htu] at hu
      exact hs u hu
  cases h with
  | @exec w w' t o k e x _ hp _ =>
    have ht : t ∈ s := hs t (by rw [Config.live, hp]; simp)
    refine ⟨⟨{k x}, .vis o k, ?_, left_set ht hp w' _⟩, hlive ht⟩
    intro q hq
    rw [Multiset.mem_singleton] at hq
    exact ⟨o, k, x, rfl, hq⟩
  | @ends w w' t _ hp _ =>
    have ht : t ∈ s := hs t (by rw [Config.live, hp]; simp)
    refine ⟨⟨0, .pure (), ?_, left_set ht hp w' none⟩, hlive ht⟩
    intro q hq
    simp at hq

/-- The calls under way take finitely many steps, however they are interleaved. -/
theorem works_acc {s : Finset T} (hs : ∀ t, c.live t → t ∈ s) : Acc (fun c' c => Works Y c c') c := by
  have hacc : Acc (CutExpand Prog.Rest) (c.left s) := Prog.rest_wf.cutExpand.apply _
  generalize hleft : c.left s = m at hacc
  induction hacc generalizing c with
  | intro m _ ih =>
    constructor
    intro c' hworks
    obtain ⟨hcut, hs'⟩ := hworks.cut hs
    rw [hleft] at hcut
    exact ih _ hcut hs' rfl

/-- Finitely many calls are under way. -/
theorem Reach.live_finset {allow : T → S.Op → W → Prop} (h : Reach Y allow c) :
    ∃ s : Finset T, ∀ t, c.live t → t ∈ s := by
  have hset : ∀ {c : Config S T W} {s : Finset T} {w : W} {t : T} {q : Option (Prog S Unit)},
      (∀ u, c.live u → u ∈ s) → ∀ u, (c.set w t q).live u → u ∈ insert t s := by
    intro c s w t q hs u hu
    by_cases htu : u = t
    · rw [htu]
      exact Finset.mem_insert_self t s
    · rw [c.set_live_ne w q htu] at hu
      exact Finset.mem_insert_of_mem (hs u hu)
  obtain ⟨w, -, hr⟩ := h
  induction hr with
  | refl => exact ⟨∅, fun t ht => absurd rfl ht⟩
  | tail _ hstep ih =>
    obtain ⟨s, hs⟩ := ih
    cases hstep with
    | begins => exact ⟨_, hset hs⟩
    | exec => exact ⟨_, hset hs⟩
    | ends => exact ⟨_, hset hs⟩
    | env => exact ⟨s, hs⟩

/-- Where calls take their locks in order and can always end, those under way come to an end, and
when they have, no lock is held. -/
theorem Reach.drains {L : Type} [DecidableEq L] [Preorder L] [WellFoundedGT L] {K : Locking S T W L}
    {allow : T → S.Op → W → Prop} (hY : K.Lawful Y)
    (hordered : ∀ {M t p w w'}, Y.begins M t p w w' → K.Ordered p) (hends : ∀ t w, ∃ w', Y.ends t w w')
    (h : Reach Y allow c) :
    Acc (fun c' c => Works Y c c') c ∧ ∀ {c'}, ReflTransGen (Works Y) c c' → (∀ c'', ¬ Works Y c' c'') →
      (∀ t, ¬ c'.live t) ∧ ∀ l, K.holder c'.world l = none := by
  obtain ⟨s, hs⟩ := h.live_finset
  refine ⟨works_acc hs, fun {c'} hworks hstuck => ?_⟩
  obtain ⟨held, hk⟩ := (h.any.run (run_of_works hworks)).tracked hY hordered
  have hnone : ∀ t, ¬ c'.live t := by
    intro t ht
    obtain ⟨u, -, -, hcan⟩ := hk.unblocks hY ht
    rcases hcan with hpure | ⟨o, x, c'', hown⟩
    · obtain ⟨w', hw'⟩ := hends u c'.world
      exact hstuck _ (.ends .refl hpure hw')
    · cases hown with
      | exec hp _ he => exact hstuck _ (.exec .refl hp he)
  refine ⟨hnone, fun l => ?_⟩
  by_contra hheld
  obtain ⟨t, ht⟩ := Option.ne_none_iff_exists'.mp hheld
  exact hnone t (hk.live ht)

end Runs

end TtWind.Effect
