import Mathlib.Data.List.Nodup
import Mathlib.Data.List.Perm.Basic
import Mathlib.Logic.Function.Basic

/-!
# Items and their holders

Items with addresses, distributed among holders: each holder has a list of them. `Allotted` says
that a map from addresses to places accounts for all of them, so that no address has two items and
none is used without one. Items come (`put`), go (`drop`), change in place, and move from one
holder to another; `Labelled` is what is said of the addresses whose item carries a label.
-/

set_option autoImplicit false

namespace TtWind

/-- A map from addresses to places accounts for the items of all holders. -/
structure Allotted {ι X A P : Type} (addr : X → A) (place : ι → X → P) (items : ι → List X)
    (pool : A → Option P) : Prop where
  placed : ∀ i, ∀ x ∈ items i, pool (addr x) = some (place i x)
  found : ∀ a, pool a ≠ none → ∃ i, ∃ x ∈ items i, addr x = a
  nodup : ∀ i, ((items i).map addr).Nodup

/-- Some holder has an item with this address and label. -/
def Labelled {ι X A B : Type} (addr : X → A) (label : X → Option B) (items : ι → List X) (a : A)
    (b : B) : Prop :=
  ∃ i, ∃ x ∈ items i, addr x = a ∧ label x = some b

section

variable {ι X A B P : Type} {addr : X → A} {place : ι → X → P} {label : X → Option B}
  {items items' : ι → List X} {pool : A → Option P} {i j : ι} {x y : X}

/-- An address has one item, and one holder. -/
theorem Allotted.unique (hplace : ∀ i j x y, place i x = place j y → i = j)
    (h : Allotted addr place items pool) (hx : x ∈ items i) (hy : y ∈ items j) (ha : addr x = addr y) :
    i = j ∧ x = y := by
  have hij : i = j := by
    apply hplace i j x y
    apply Option.some.inj
    rw [← h.placed i x hx, ha, h.placed j y hy]
  subst hij
  exact ⟨rfl, List.inj_on_of_nodup_map (h.nodup i) hx hy ha⟩

theorem Allotted.mem_of_ne (hother : ∀ k, k ≠ i → items' k = items k) {rest : List X}
    (hi : (items i).Perm (x :: rest)) (hi' : items' i = rest) {k : ι} {u : X} (hu : u ∈ items' k) :
    u ∈ items k := by
  by_cases hk : k = i
  · subst hk
    exact hi.mem_iff.mpr (List.mem_cons_of_mem _ (hi' ▸ hu))
  · exact hother k hk ▸ hu

variable [DecidableEq A]

/-- A new item. -/
theorem Allotted.put (h : Allotted addr place items pool) (hfree : pool (addr x) = none)
    (hi : (items' i).Perm (x :: items i)) (hother : ∀ k, k ≠ i → items' k = items k) :
    Allotted addr place items' (Function.update pool (addr x) (some (place i x))) := by
  have hmem : ∀ k u, u ∈ items' k ↔ (k = i ∧ u = x) ∨ u ∈ items k := by
    intro k u
    by_cases hk : k = i
    · subst hk
      simp [hi.mem_iff]
    · simp [hother k hk, hk]
  have hnew : ∀ k, ∀ u ∈ items k, addr u ≠ addr x := by
    intro k u hu heq
    have hplaced := h.placed k u hu
    rw [heq, hfree] at hplaced
    cases hplaced
  refine ⟨fun k u hu => ?_, fun a ha => ?_, fun k => ?_⟩
  · rcases (hmem k u).mp hu with ⟨rfl, rfl⟩ | hu
    · rw [Function.update_self]
    · rw [Function.update_of_ne (hnew k u hu)]
      exact h.placed k u hu
  · by_cases hax : a = addr x
    · exact ⟨i, x, (hmem i x).mpr (.inl ⟨rfl, rfl⟩), hax.symm⟩
    · rw [Function.update_of_ne hax] at ha
      obtain ⟨k, u, hu, rfl⟩ := h.found a ha
      exact ⟨k, u, (hmem k u).mpr (.inr hu), rfl⟩
  · by_cases hk : k = i
    · subst hk
      rw [(hi.map addr).nodup_iff, List.map_cons, List.nodup_cons]
      refine ⟨fun hin => ?_, h.nodup k⟩
      obtain ⟨u, hu, heq⟩ := List.mem_map.mp hin
      exact hnew k u hu heq
    · rw [hother k hk]
      exact h.nodup k

/-- An item less. -/
theorem Allotted.drop (hplace : ∀ i j x y, place i x = place j y → i = j)
    (h : Allotted addr place items pool) (hi : (items i).Perm (x :: items' i))
    (hother : ∀ k, k ≠ i → items' k = items k) :
    Allotted addr place items' (Function.update pool (addr x) none) := by
  have hsub : ∀ k, ∀ u ∈ items' k, u ∈ items k := fun k u hu => Allotted.mem_of_ne hother hi rfl hu
  have hx : x ∈ items i := hi.mem_iff.mpr List.mem_cons_self
  have hnodup := h.nodup i
  rw [(hi.map addr).nodup_iff, List.map_cons, List.nodup_cons] at hnodup
  have hgone : ∀ k, ∀ u ∈ items' k, addr u ≠ addr x := by
    intro k u hu heq
    obtain ⟨rfl, rfl⟩ := h.unique hplace (hsub k u hu) hx heq
    exact hnodup.1 (List.mem_map_of_mem hu)
  refine ⟨fun k u hu => ?_, fun a ha => ?_, fun k => ?_⟩
  · rw [Function.update_of_ne (hgone k u hu)]
    exact h.placed k u (hsub k u hu)
  · by_cases hax : a = addr x
    · rw [hax, Function.update_self] at ha
      exact absurd rfl ha
    · rw [Function.update_of_ne hax] at ha
      obtain ⟨k, u, hu, rfl⟩ := h.found a ha
      refine ⟨k, u, ?_, rfl⟩
      by_cases hk : k = i
      · subst hk
        rcases List.mem_cons.mp (hi.mem_iff.mp hu) with rfl | hu
        · exact absurd rfl hax
        · exact hu
      · rw [hother k hk]
        exact hu
  · by_cases hk : k = i
    · subst hk
      exact hnodup.2
    · rw [hother k hk]
      exact h.nodup k

/-- Items move to another holder, and may change on the way. -/
theorem Allotted.moveAll (hplace : ∀ i j x y, place i x = place j y → i = j) (moved : List X) (f : X → X)
    {pool' : A → Option P} (h : Allotted addr place items pool) (hij : i ≠ j)
    (hf : ∀ x ∈ moved, addr (f x) = addr x) (hi : (items i).Perm (moved ++ items' i))
    (hj : (items' j).Perm (moved.map f ++ items j)) (hother : ∀ k, k ≠ i → k ≠ j → items' k = items k)
    (hkept : ∀ a, a ∉ moved.map addr → pool' a = pool a)
    (hmoved : ∀ x ∈ moved, pool' (addr x) = some (place j (f x))) : Allotted addr place items' pool' := by
  have hnodup := h.nodup i
  rw [(hi.map addr).nodup_iff, List.map_append] at hnodup
  obtain ⟨hnodupm, hnodupi, hdisj⟩ := List.nodup_append.mp hnodup
  have hfrom : ∀ x ∈ moved, x ∈ items i := fun x hx => hi.mem_iff.mpr (List.mem_append_left _ hx)
  have haddr : (moved.map f).map addr = moved.map addr := by
    rw [List.map_map]
    exact List.map_congr_left hf
  -- an item of another holder has none of the addresses that move
  have hclear : ∀ k, k ≠ i → ∀ u ∈ items k, addr u ∉ moved.map addr := by
    intro k hk u hu hin
    obtain ⟨x, hx, heq⟩ := List.mem_map.mp hin
    exact hk (h.unique hplace (hfrom x hx) hu heq).1.symm
  refine ⟨fun k u hu => ?_, fun a ha => ?_, fun k => ?_⟩
  · by_cases hki : k = i
    · subst hki
      rw [hkept _ fun hin => hdisj _ hin _ (List.mem_map_of_mem hu) rfl]
      exact h.placed k u (hi.mem_iff.mpr (List.mem_append_right _ hu))
    · by_cases hkj : k = j
      · subst hkj
        rcases List.mem_append.mp (hj.mem_iff.mp hu) with hu | hu
        · obtain ⟨x, hx, rfl⟩ := List.mem_map.mp hu
          rw [hf x hx]
          exact hmoved x hx
        · rw [hkept _ (hclear k hki u hu)]
          exact h.placed k u hu
      · rw [hother k hki hkj] at hu
        rw [hkept _ (hclear k hki u hu)]
        exact h.placed k u hu
  · by_cases hin : a ∈ moved.map addr
    · obtain ⟨x, hx, rfl⟩ := List.mem_map.mp hin
      refine ⟨j, f x, hj.mem_iff.mpr (List.mem_append_left _ (List.mem_map_of_mem hx)), hf x hx⟩
    · rw [hkept a hin] at ha
      obtain ⟨k, u, hu, rfl⟩ := h.found a ha
      refine ⟨k, u, ?_, rfl⟩
      by_cases hki : k = i
      · subst hki
        rcases List.mem_append.mp (hi.mem_iff.mp hu) with hu | hu
        · exact absurd (List.mem_map_of_mem hu) hin
        · exact hu
      · by_cases hkj : k = j
        · subst hkj
          exact hj.mem_iff.mpr (List.mem_append_right _ hu)
        · rw [hother k hki hkj]
          exact hu
  · by_cases hki : k = i
    · subst hki
      exact hnodupi
    · by_cases hkj : k = j
      · subst hkj
        rw [(hj.map addr).nodup_iff, List.map_append, haddr]
        apply List.nodup_append.mpr
        refine ⟨hnodupm, h.nodup k, fun a ha b hb hab => ?_⟩
        obtain ⟨u, hu, rfl⟩ := List.mem_map.mp hb
        exact hclear k hki u hu (hab ▸ ha)
      · rw [hother k hki hkj]
        exact h.nodup k

/-- One item moves to another holder, and may change on the way. -/
theorem Allotted.move (hplace : ∀ i j x y, place i x = place j y → i = j)
    (h : Allotted addr place items pool) (hij : i ≠ j) (hxy : addr y = addr x)
    (hi : (items i).Perm (x :: items' i)) (hj : (items' j).Perm (y :: items j))
    (hother : ∀ k, k ≠ i → k ≠ j → items' k = items k) :
    Allotted addr place items' (Function.update pool (addr x) (some (place j y))) := by
  apply h.moveAll hplace [x] (fun _ => y) hij
  · rintro u hu
    rw [List.mem_singleton.mp hu]
    exact hxy
  · exact hi
  · exact hj
  · exact hother
  · intro a ha
    exact Function.update_of_ne (fun heq => ha (by simp [heq])) ..
  · intro u hu
    rw [List.mem_singleton.mp hu]
    exact Function.update_self ..

/-- An item changes in place. -/
theorem Allotted.change (hplace : ∀ i j x y, place i x = place j y → i = j)
    (h : Allotted addr place items pool) (rest : List X) (hxy : addr y = addr x)
    (hsame : place i y = place i x) (hi : (items i).Perm (x :: rest)) (hi' : (items' i).Perm (y :: rest))
    (hother : ∀ k, k ≠ i → items' k = items k) : Allotted addr place items' pool := by
  classical
  have hdrop : Allotted addr place (Function.update items i rest) (Function.update pool (addr x) none) := by
    apply h.drop hplace (i := i)
    · rw [Function.update_self]
      exact hi
    · exact fun k hk => Function.update_of_ne hk ..
  have hput : Allotted addr place items'
      (Function.update (Function.update pool (addr x) none) (addr y) (some (place i y))) := by
    apply hdrop.put
    · rw [hxy, Function.update_self]
    · rw [Function.update_self]
      exact hi'
    · intro k hk
      rw [Function.update_of_ne hk]
      exact hother k hk
  have hx := h.placed i x (hi.mem_iff.mpr List.mem_cons_self)
  rwa [hxy, Function.update_idem, hsame, ← hx, Function.update_eq_self] at hput

/-! ## Labels -/

omit [DecidableEq A] in
/-- A new item brings its label. -/
theorem labelled_put {a : A} {b : B} (hi : (items' i).Perm (x :: items i))
    (hother : ∀ k, k ≠ i → items' k = items k) :
    Labelled addr label items' a b ↔ (addr x = a ∧ label x = some b) ∨ Labelled addr label items a b := by
  constructor
  · rintro ⟨k, u, hu, hua, hub⟩
    by_cases hk : k = i
    · subst hk
      rcases List.mem_cons.mp (hi.mem_iff.mp hu) with rfl | hu
      · exact .inl ⟨hua, hub⟩
      · exact .inr ⟨k, u, hu, hua, hub⟩
    · exact .inr ⟨k, u, hother k hk ▸ hu, hua, hub⟩
  · rintro (⟨hxa, hxb⟩ | ⟨k, u, hu, hua, hub⟩)
    · exact ⟨i, x, hi.mem_iff.mpr List.mem_cons_self, hxa, hxb⟩
    · refine ⟨k, u, ?_, hua, hub⟩
      by_cases hk : k = i
      · subst hk
        exact hi.mem_iff.mpr (List.mem_cons_of_mem _ hu)
      · rw [hother k hk]
        exact hu

omit [DecidableEq A] in
/-- Items that move keep their labels. -/
theorem labelled_moveAll (moved : List X) (f : X → X) {a : A} {b : B} (hij : i ≠ j)
    (hf : ∀ x ∈ moved, addr (f x) = addr x ∧ label (f x) = label x) (hi : (items i).Perm (moved ++ items' i))
    (hj : (items' j).Perm (moved.map f ++ items j)) (hother : ∀ k, k ≠ i → k ≠ j → items' k = items k) :
    Labelled addr label items' a b ↔ Labelled addr label items a b := by
  constructor
  · rintro ⟨k, u, hu, hua, hub⟩
    by_cases hki : k = i
    · subst hki
      exact ⟨k, u, hi.mem_iff.mpr (List.mem_append_right _ hu), hua, hub⟩
    · by_cases hkj : k = j
      · subst hkj
        rcases List.mem_append.mp (hj.mem_iff.mp hu) with hu | hu
        · obtain ⟨x, hx, rfl⟩ := List.mem_map.mp hu
          exact ⟨i, x, hi.mem_iff.mpr (List.mem_append_left _ hx), (hf x hx).1 ▸ hua, (hf x hx).2 ▸ hub⟩
        · exact ⟨k, u, hu, hua, hub⟩
      · exact ⟨k, u, hother k hki hkj ▸ hu, hua, hub⟩
  · rintro ⟨k, u, hu, hua, hub⟩
    by_cases hki : k = i
    · subst hki
      rcases List.mem_append.mp (hi.mem_iff.mp hu) with hu | hu
      · refine ⟨j, f u, hj.mem_iff.mpr (List.mem_append_left _ (List.mem_map_of_mem hu)), ?_, ?_⟩
        · rw [(hf u hu).1, hua]
        · rw [(hf u hu).2, hub]
      · exact ⟨k, u, hu, hua, hub⟩
    · by_cases hkj : k = j
      · subst hkj
        exact ⟨k, u, hj.mem_iff.mpr (List.mem_append_right _ hu), hua, hub⟩
      · refine ⟨k, u, ?_, hua, hub⟩
        rw [hother k hki hkj]
        exact hu

end

end TtWind
