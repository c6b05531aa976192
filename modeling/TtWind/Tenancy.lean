import Mathlib.Data.List.Nodup
import Mathlib.Logic.Function.Basic

/-!
# Tenancies

Units are let to tenants, and a tenant puts items up, each on a unit that it has or on none: what an
allocator with a table of owners and a list of records is for. A `Tenancy` cannot be built with an
item on a unit that is not its holder's.

`Does` is what each act needs and leaves. The state is told by its history: a unit is a tenant's
exactly if the tenant took it and nothing since vacated it, and an item stands exactly if it was put
up and nothing since took it down. A tenant's share changes only by acts that concern it.
-/

set_option autoImplicit false

namespace TtWind

variable {I H M : Type}

/-- Who has which unit, and the items that stand. -/
@[ext] structure Tenancy (holder : M → H) (site : M → Option I) where
  tenant : I → Option H
  items : List M
  nodup : items.Nodup
  placed : ∀ m ∈ items, ∀ i, site m = some i → tenant i = some (holder m)

/-- What can happen. -/
inductive TenancyAct (I H M : Type) where
  | takes (h : H) (i : I)
  | returns (h : H) (i : I)
  | puts (m : M)
  | drops (m : M)
  /-- A tenant leaves with everything. -/
  | leaves (h : H)
  /-- All tenancies end. -/
  | ends
  deriving DecidableEq

namespace TenancyAct

/-- The act ends the tenancy of a unit. -/
def Vacates (h : H) (i : I) (a : TenancyAct I H M) : Prop := a = .returns h i ∨ a = .leaves h ∨ a = .ends

/-- The act takes an item down. -/
def Removes (holder : M → H) (m : M) (a : TenancyAct I H M) : Prop :=
  a = .drops m ∨ a = .leaves (holder m) ∨ a = .ends

/-- The act is one of the tenant, or ends all tenancies. -/
def Concerns (holder : M → H) (h : H) : TenancyAct I H M → Prop
  | .takes h' _ | .returns h' _ | .leaves h' => h' = h
  | .puts m | .drops m => holder m = h
  | .ends => True

end TenancyAct

/-- In a history, latest first, something happened and nothing of a kind since. -/
def Since {A : Type} (a : A) (undoes : A → Prop) (as : List A) : Prop :=
  ∃ later before, as = later ++ a :: before ∧ ∀ b ∈ later, ¬ undoes b

theorem since_cons {A : Type} {a b : A} {undoes : A → Prop} {as : List A} :
    Since a undoes (b :: as) ↔ b = a ∨ ¬ undoes b ∧ Since a undoes as := by
  constructor
  · rintro ⟨later, before, heq, hlater⟩
    cases later with
    | nil => exact .inl (List.cons.inj heq).1
    | cons b' later =>
      obtain ⟨rfl, rfl⟩ := List.cons.inj heq
      exact .inr ⟨hlater _ List.mem_cons_self, later, before, rfl, fun x hx => hlater x (List.mem_cons_of_mem _ hx)⟩
  · rintro (rfl | ⟨hb, later, before, rfl, hlater⟩)
    · exact ⟨[], as, rfl, fun _ h => by cases h⟩
    · refine ⟨b :: later, before, rfl, fun x hx => ?_⟩
      rcases List.mem_cons.mp hx with rfl | hx
      · exact hb
      · exact hlater x hx

theorem not_since_nil {A : Type} {a : A} {undoes : A → Prop} : ¬ Since a undoes [] := by
  rintro ⟨later, before, heq, -⟩
  cases later <;> cases heq

namespace Tenancy

variable [DecidableEq I] [DecidableEq H] [DecidableEq M] {holder : M → H} {site : M → Option I}

/-- Nothing is let. -/
def empty : Tenancy holder site := ⟨fun _ => none, [], List.nodup_nil, fun _ h => by cases h⟩

/-- The act is possible in `s` and leads to `s'`. -/
def Does (s : Tenancy holder site) (a : TenancyAct I H M) (s' : Tenancy holder site) : Prop :=
  match a with
  | .takes h i => s.tenant i = none ∧ s'.tenant = Function.update s.tenant i (some h) ∧ s'.items = s.items
  | .returns h i => s.tenant i = some h ∧ s'.tenant = Function.update s.tenant i none ∧ s'.items = s.items
  | .puts m => m ∉ s.items ∧ s'.tenant = s.tenant ∧ s'.items = s.items ++ [m]
  | .drops m => m ∈ s.items ∧ s'.tenant = s.tenant ∧ s'.items = s.items.erase m
  | .leaves h =>
    (s'.tenant = fun i => if s.tenant i = some h then none else s.tenant i) ∧
      s'.items = s.items.filter fun m => !(holder m == h)
  | .ends => (s'.tenant = fun _ => none) ∧ s'.items = []

/-- These acts, latest first, lead from `s` to a state. -/
inductive Runs (s : Tenancy holder site) : List (TenancyAct I H M) → Tenancy holder site → Prop where
  | start : Runs s [] s
  | act {as : List (TenancyAct I H M)} {a : TenancyAct I H M} {s₁ s₂ : Tenancy holder site} :
      Runs s as s₁ → s₁.Does a s₂ → Runs s (a :: as) s₂

variable {s s' : Tenancy holder site} {a : TenancyAct I H M} {as : List (TenancyAct I H M)} {h : H} {i : I} {m : M}

/-! ## The state is told by its history -/

/-- Whose a unit is after an act. -/
theorem Does.tenant_iff (hd : s.Does a s') :
    s'.tenant i = some h ↔ a = .takes h i ∨ ¬ a.Vacates h i ∧ s.tenant i = some h := by
  unfold TenancyAct.Vacates
  cases a with
  | takes h' j =>
    obtain ⟨hnone, htenant, -⟩ := hd
    rw [htenant]
    by_cases hj : i = j
    · subst hj
      simp [hnone]
    · simp [Function.update_of_ne hj, Ne.symm hj]
  | returns h' j =>
    obtain ⟨hlet, htenant, -⟩ := hd
    rw [htenant]
    by_cases hj : i = j
    · subst hj
      simp [hlet]
    · simp [Function.update_of_ne hj, Ne.symm hj]
  | puts m | drops m =>
    obtain ⟨-, htenant, -⟩ := hd
    simp [htenant]
  | leaves h' =>
    obtain ⟨htenant, -⟩ := hd
    by_cases hh : h' = h
    · subst hh
      simp [htenant]
    · have hne : s.tenant i = some h → s.tenant i ≠ some h' := by
        intro hi hi'
        exact hh (Option.some.inj (hi'.symm.trans hi))
      grind
  | ends =>
    obtain ⟨htenant, -⟩ := hd
    simp [htenant]

/-- Which items stand after an act. -/
theorem Does.mem_iff (hd : s.Does a s') :
    m ∈ s'.items ↔ a = .puts m ∨ ¬ a.Removes holder m ∧ m ∈ s.items := by
  unfold TenancyAct.Removes
  cases a with
  | takes h' j | returns h' j =>
    obtain ⟨-, -, hitems⟩ := hd
    simp [hitems]
  | puts m' =>
    obtain ⟨-, -, hitems⟩ := hd
    rw [hitems, List.mem_append, List.mem_singleton]
    grind
  | drops m' =>
    obtain ⟨-, -, hitems⟩ := hd
    rw [hitems, s.nodup.mem_erase_iff]
    grind
  | leaves h' =>
    obtain ⟨-, hitems⟩ := hd
    rw [hitems, List.mem_filter]
    grind
  | ends =>
    obtain ⟨-, hitems⟩ := hd
    simp [hitems]

/-- A unit is a tenant's exactly if the tenant took it and nothing since vacated it. -/
theorem Runs.tenant_iff (hr : empty.Runs as s) :
    s.tenant i = some h ↔ Since (.takes h i) (TenancyAct.Vacates h i) as := by
  induction hr with
  | start => exact iff_of_false (fun he => by cases he) not_since_nil
  | act _ hd ih => rw [hd.tenant_iff, since_cons, ih]

/-- An item stands exactly if it was put up and nothing since took it down. -/
theorem Runs.mem_iff (hr : empty.Runs as s) :
    m ∈ s.items ↔ Since (.puts m) (TenancyAct.Removes holder m) as := by
  induction hr with
  | start => exact iff_of_false (fun he => by cases he) not_since_nil
  | act _ hd ih => rw [hd.mem_iff, since_cons, ih]

/-! ## Tenants keep to their own -/

/-- Two states agree about a tenant. -/
structure SameShare (h : H) (s s' : Tenancy holder site) : Prop where
  tenant : ∀ i, s'.tenant i = some h ↔ s.tenant i = some h
  items : (s'.items.filter fun m => holder m == h) = s.items.filter fun m => holder m == h

omit [DecidableEq I] [DecidableEq M] in
theorem SameShare.refl (s : Tenancy holder site) : SameShare h s s := ⟨fun _ => Iff.rfl, rfl⟩

omit [DecidableEq I] [DecidableEq M] in
theorem SameShare.trans {s₁ s₂ s₃ : Tenancy holder site} (h₁ : SameShare h s₁ s₂) (h₂ : SameShare h s₂ s₃) :
    SameShare h s₁ s₃ := ⟨fun i => (h₂.tenant i).trans (h₁.tenant i), h₂.items.trans h₁.items⟩

/-- An act that does not concern a tenant leaves its share. -/
theorem Does.sameShare (hd : s.Does a s') (ha : ¬ a.Concerns holder h) : SameShare h s s' := by
  constructor
  · intro i
    rw [hd.tenant_iff]
    unfold TenancyAct.Concerns at ha
    unfold TenancyAct.Vacates
    cases a <;> simp_all
  · cases a with
    | takes h' j | returns h' j =>
      obtain ⟨-, -, hitems⟩ := hd
      rw [hitems]
    | puts m =>
      obtain ⟨-, -, hitems⟩ := hd
      have hm : holder m ≠ h := ha
      simp [hitems, hm]
    | drops m =>
      obtain ⟨-, -, hitems⟩ := hd
      have hm : holder m ≠ h := ha
      rw [hitems, s.nodup.erase_eq_filter, List.filter_filter]
      apply List.filter_congr
      intro m' _
      by_cases hm' : holder m' = h
      · have hne : m' ≠ m := by
          rintro rfl
          exact hm hm'
        simp [hm', hne]
      · simp [hm']
    | leaves h' =>
      obtain ⟨-, hitems⟩ := hd
      have hh : h' ≠ h := ha
      rw [hitems, List.filter_filter]
      apply List.filter_congr
      intro m' _
      by_cases hm' : holder m' = h
      · simp [hm', Ne.symm hh]
      · simp [hm']
    | ends => exact absurd trivial ha

end Tenancy

end TtWind
