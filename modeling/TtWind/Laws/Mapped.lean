import TtWind.Laws.Custody
import TtWind.Laws.Grip
import TtWind.Laws.Tenancies

/-!
# Views that are there

A finished record tells of a view: one on the mapping list, one in a thread's hand, one on its
private list. As long as the process runs, the view is there, at the address and with the pages the
record tells. So the mapping list says what is mapped, and a view goes only by the thread that has
its record.
-/

set_option autoImplicit false

namespace TtWind

open TtWind.Effect TtWind.Effect.Prog

namespace World

/-- The views that finished records tell of, by who has the record: the mapping list, or a thread. -/
def ToldBy (w : World) : Option Tid → Showing → Prop
  | none, s => ∃ m ∈ w.ctx.mappingList, m.showing = s
  | some t, s => (w.grip t).view = some s ∨ ∃ m ∈ (w.grip t).list, m.showing = s

/-- There is a view like this. -/
def Visible (w : World) (s : Showing) : Prop := ∃ v ∈ w.views, v.showing = s

/-- A process has one view at an address. -/
def ViewsApart (w : World) : Prop := ∀ v ∈ w.views, ∀ v' ∈ w.views, v.process = v'.process → v.va = v'.va → v = v'

/-- A process has one view at an address, threads know where they are, and what is told is visible. -/
structure Displayed (w : World) : Prop where
  apart : w.ViewsApart
  current : ∀ t p, (w.grip t).current = some p → w.curProc t = p
  held : ∀ t s, (w.grip t).view = some s → ∃ h, (w.grip t).held = some h ∧ h.addr = s.addr
  told : ∀ i s, w.ToldBy i s → w.procs s.process = .running → w.Visible s

end World

section Exec

variable {t : Tid} {o : Op} {e : Choice} {w w' : World} {x : o.Ans}

theorem exec_grip (he : w.exec t o e = some (x, w')) :
    w'.grip = Function.update w.grip t ((w.grip t).next ⟨o, x⟩) := by
  funext u
  rw [World.grip, (World.exec_frame he).hist]
  by_cases hu : u = t
  · subst hu
    simp only [Function.update_self]
    rfl
  · simp only [Function.update_of_ne hu]
    rfl

theorem exec_grip_self (he : w.exec t o e = some (x, w')) : w'.grip t = (w.grip t).next ⟨o, x⟩ := by
  rw [exec_grip he, Function.update_self]

theorem exec_grip_ne (he : w.exec t o e = some (x, w')) {u : Tid} (hu : u ≠ t) : w'.grip u = w.grip u := by
  rw [exec_grip he, Function.update_of_ne hu]

/-! ## What is told after an operation was told before -/

/-- What is told after an operation, if the mapping list and what the thread has are accounted for. -/
theorem told_of_exec (he : w.exec t o e = some (x, w')) {P : Option Tid → Showing → Prop}
    (hlist : ∀ m ∈ w'.ctx.mappingList, P none m.showing)
    (hview : ∀ s, Grip.nextView ⟨o, x⟩ (w.grip t) = some s → P (some t) s)
    (hmine : ∀ m ∈ ((w.grip t).toWork.next ⟨o, x⟩).list, P (some t) m.showing)
    (hothers : ∀ u s, u ≠ t → w.ToldBy (some u) s → P (some u) s) {i : Option Tid} {s : Showing}
    (h : w'.ToldBy i s) : P i s := by
  cases i with
  | none =>
    obtain ⟨m, hm, rfl⟩ := h
    exact hlist m hm
  | some u =>
    by_cases hu : u = t
    · subst hu
      simp only [World.ToldBy, exec_grip_self he] at h
      rcases h with hv | ⟨m, hm, rfl⟩
      · exact hview s hv
      · exact hmine m hm
    · simp only [World.ToldBy, exec_grip_ne he hu] at h
      exact hothers u s hu h

/-- Nothing new is told by an operation that takes what it tells from what it found. -/
theorem told_before (he : w.exec t o e = some (x, w'))
    (hlist : ∀ m ∈ w'.ctx.mappingList, ∃ j, w.ToldBy j m.showing)
    (hview : ∀ s, Grip.nextView ⟨o, x⟩ (w.grip t) = some s → ∃ j, w.ToldBy j s)
    (hmine : ∀ m ∈ ((w.grip t).toWork.next ⟨o, x⟩).list, ∃ j, w.ToldBy j m.showing) {i : Option Tid} {s : Showing}
    (h : w'.ToldBy i s) : ∃ j, w.ToldBy j s :=
  told_of_exec he (P := fun _ s => ∃ j, w.ToldBy j s) hlist hview hmine (fun u _ _ h => ⟨some u, h⟩) h

theorem told_list {m : UserMapping} (hm : m ∈ w.ctx.mappingList) : ∃ j, w.ToldBy j m.showing := ⟨none, m, hm, rfl⟩

theorem told_mine {m : UserMapping} (hm : m ∈ (w.grip t).list) : ∃ j, w.ToldBy j m.showing :=
  ⟨some t, .inr ⟨m, hm, rfl⟩⟩

theorem told_view {s : Showing} (hs : (w.grip t).view = some s) : ∃ j, w.ToldBy j s := ⟨some t, .inl hs⟩

/-- A section moves records between the mapping list and its thread. -/
theorem exec_section_told {s : Section} {x : s.Ans} (he : w.exec t (.locked s) e = some (x, w'))
    (ha : (w.grip t).allows (.locked s)) {i : Option Tid} {r : Showing} (h : w'.ToldBy i r) :
    ∃ j, w.ToldBy j r := by
  have hlist : w'.ctx.mappingList = (s.run w.ctx).2.mappingList := by
    rw [(World.exec_frame he).ctx]
    rfl
  obtain ⟨hx, -, -⟩ := exec_locked he
  have hkept : s.LeavesList → ∃ j, w.ToldBy j r := by
    intro hs
    have hsame : (w.grip t).next ⟨.locked s, x⟩ = w.grip t := Grip.next_of_spares (o := .locked s) hs id x _
    rw [Section.LeavesList.list hs] at hlist
    apply told_before he _ _ _ h
    · rw [hlist]
      exact fun m hm => told_list hm
    · intro r hr
      exact told_view ((congrArg Grip.view hsame).symm.trans hr)
    · intro m hm
      exact told_mine ((congrArg (fun g : Grip => g.list) hsame) ▸ hm)
  have hinsert : ∀ m, (w.grip t).view = some m.showing →
      ∀ m' ∈ w.ctx.mappingList ++ [m], ∃ j, w.ToldBy j m'.showing := by
    intro m hm m' hm'
    rcases List.mem_append.mp hm' with hold | hnew
    · exact told_list hold
    · obtain rfl := List.mem_singleton.mp hnew
      exact told_view hm
  cases s with
  | insertMapping m =>
    have hall : ∀ m' ∈ w'.ctx.mappingList, ∃ j, w.ToldBy j m'.showing := by
      rw [hlist]
      simp only [Section.run]
      split
      · exact fun m' hm' => told_list hm'
      · exact hinsert m ha.2
    apply told_before he hall _ _ h
    · intro r hr
      cases x with
      | true => cases hr
      | false => exact told_view hr
    · intro m' hm'
      cases x <;> exact told_mine hm'
  | appendMapping m =>
    apply told_before he _ _ _ h
    · rw [hlist]
      exact hinsert m ha.2
    · intro r hr
      cases hr
    · exact fun m' hm' => told_mine hm'
  | takeMapping fo va =>
    cases hfound : w.ctx.mappingList.find? (Section.isMappingAt fo va) with
    | none =>
      simp only [Section.run, hfound] at hx hlist
      subst hx
      apply told_before he _ (fun r hr => told_view hr) (fun m' hm' => told_mine hm') h
      rw [hlist]
      exact fun m' hm' => told_list hm'
    | some m =>
      simp only [Section.run, hfound] at hx hlist
      subst hx
      apply told_before he _ _ _ h
      · rw [hlist]
        exact fun m' hm' => told_list (List.mem_of_mem_eraseP hm')
      · intro r hr
        obtain rfl := Option.some.inj hr
        exact told_list (List.mem_of_find?_eq_some hfound)
      · exact fun m' hm' => told_mine hm'
  | sweepFile fo =>
    subst hx
    apply told_before he _ (fun r hr => told_view hr) _ h
    · rw [hlist]
      exact fun m' hm' => told_list (List.mem_of_mem_filter hm')
    · exact fun m' hm' => told_list (List.mem_of_mem_filter hm')
  | sweepAll =>
    subst hx
    apply told_before he _ (fun r hr => told_view hr) _ h
    · rw [hlist]
      intro m' hm'
      cases hm'
    · exact fun m' hm' => told_list hm'
  | _ => exact hkept trivial

/-- Operations that map a view. -/
def Op.mapsView : Op → Prop
  | .mapLockedPages _ _ _ | .mapView _ _ _ => True
  | _ => False

/-- Other operations than those that map a view tell nothing new. -/
theorem exec_told (he : w.exec t o e = some (x, w')) (hwork : (w.work t).allows o) (ha : (w.grip t).allows o)
    (hmap : ¬ o.mapsView) {i : Option Tid} {s : Showing}
    (h : w'.ToldBy i s) : ∃ j, w.ToldBy j s := by
  have hlist : (∀ c, (o.effect c).mappingList = c.mappingList) →
      ∀ m ∈ w'.ctx.mappingList, ∃ j, w.ToldBy j m.showing := by
    intro heffect
    rw [(World.exec_frame he).ctx, heffect]
    exact fun m hm => told_list hm
  cases o with
  | locked s => exact exec_section_told he ha h
  | store f =>
    exact told_before he (hlist fun c => (hwork c).1) (fun r hr => told_view hr) (fun m hm => told_mine hm) h
  | mapLockedPages m wc a => exact (hmap trivial).elim
  | mapView b n a => exact (hmap trivial).elim
  | currentProcess =>
    have hturn : ∀ g : Grip, (∀ s, g.turnView = some s → g.view = some s ∨ ∃ m ∈ g.list, m.showing = s) ∧
        ∀ m ∈ g.toWork.turn.list, m ∈ g.list := by
      rintro ⟨⟨held, list⟩, current, saved, view⟩
      cases held <;> cases list <;> simp +contextual [Grip.turnView, Work.turn]
    obtain ⟨hview, hmine⟩ := hturn (w.grip t)
    apply told_before he (hlist fun _ => rfl) _ _ h
    · exact fun r hr => ⟨some t, hview r hr⟩
    · intro m hm
      rw [Work.next_currentProcess] at hm
      exact told_mine (hmine m hm)
  | unmapLockedPages va m =>
    apply told_before he (hlist fun _ => rfl) _ (fun m hm => told_mine hm) h
    intro r hr
    cases hr
  | unmapView va =>
    apply told_before he (hlist fun _ => rfl) _ (fun m hm => told_mine hm) h
    intro r hr
    cases hr
  | freePool a =>
    apply told_before he (hlist fun _ => rfl) _ (fun m hm => told_mine hm) h
    intro r hr
    cases hr
  | allocPool =>
    apply told_before he (hlist fun _ => rfl) (fun r hr => told_view hr) _ h
    intro m hm
    cases x <;> exact told_mine hm
  | _ => exact told_before he (hlist fun _ => rfl) (fun r hr => told_view hr) (fun m hm => told_mine hm) h

/-- The view in hand is that of the record in hand. -/
theorem exec_held (he : w.exec t o e = some (x, w')) (hwork : (w.work t).allows o) (ha : (w.grip t).allows o)
    (hheld : ∀ s, (w.grip t).view = some s → ∃ h, (w.grip t).held = some h ∧ h.addr = s.addr) {r : Showing}
    (hs : (w'.grip t).view = some r) : ∃ h, (w'.grip t).held = some h ∧ h.addr = r.addr := by
  rw [exec_grip_self he] at hs ⊢
  rw [← w.grip_toWork t] at hwork
  generalize w.grip t = g at *
  cases o with
  | locked s =>
    have hkept : s.LeavesList → ∃ h, (g.next ⟨.locked s, x⟩).held = some h ∧ h.addr = r.addr := by
      intro hs'
      have hsame : g.next ⟨.locked s, x⟩ = g := Grip.next_of_spares (o := .locked s) hs' id x g
      rw [hsame] at hs ⊢
      exact hheld r hs
    cases s with
    | insertMapping m =>
      cases x with
      | true => cases hs
      | false => exact hheld r hs
    | appendMapping m => cases hs
    | takeMapping fo va =>
      cases x with
      | none => exact hheld r hs
      | some m =>
        obtain rfl := Option.some.inj hs
        exact ⟨m.inHand, rfl, rfl⟩
    | sweepFile fo => exact hheld r hs
    | sweepAll => exact hheld r hs
    | _ => exact hkept trivial
  | allocPool =>
    have hg : g.toWork = {} := hwork
    obtain ⟨h, hh, -⟩ := hheld r hs
    rw [hg] at hh
    cases hh
  | referenceProcess p =>
    obtain ⟨h, hh, haddr⟩ := hheld r hs
    exact ⟨{ h with process := some p }, congrArg (Option.map _) hh, haddr⟩
  | dereferenceProcess p =>
    obtain ⟨h, hh, haddr⟩ := hheld r hs
    exact ⟨{ h with process := none }, congrArg (Option.map _) hh, haddr⟩
  | freePool a => cases hs
  | mapLockedPages m wc a =>
    obtain ⟨-, p, hp, hg⟩ := ha
    cases x with
    | error st => exact hheld r hs
    | ok va =>
      obtain ⟨q, -, rfl⟩ := Option.map_eq_some_iff.mp hs
      exact ⟨_, hg, rfl⟩
  | mapView b n a =>
    obtain ⟨-, p, hp, hg⟩ := ha
    cases x with
    | error st => exact hheld r hs
    | ok va =>
      obtain ⟨q, -, rfl⟩ := Option.map_eq_some_iff.mp hs
      exact ⟨_, hg, rfl⟩
  | unmapLockedPages va m => cases hs
  | unmapView va => cases hs
  | currentProcess =>
    have hturn : ∀ g : Grip, (∀ s, g.view = some s → ∃ h, g.held = some h ∧ h.addr = s.addr) →
        ∀ s, g.turnView = some s → ∃ h, g.toWork.turn.held = some h ∧ h.addr = s.addr := by
      rintro ⟨⟨held, list⟩, current, saved, view⟩ hheld s hs
      cases held <;> cases list
      · exact hheld s hs
      · obtain rfl := Option.some.inj hs
        exact ⟨_, rfl, rfl⟩
      · exact hheld s hs
      · exact hheld s hs
    obtain ⟨h, hh, haddr⟩ := hturn g hheld r hs
    refine ⟨h, ?_, haddr⟩
    show (g.toWork.next ⟨.currentProcess, x⟩).held = some h
    rw [Work.next_currentProcess]
    exact hh
  | _ => exact hheld r hs

/-- A thread knows the process it is in. -/
theorem exec_current (he : w.exec t o e = some (x, w'))
    (hcurrent : ∀ u p, (w.grip u).current = some p → w.curProc u = p) {u : Tid} {p : Process}
    (hp : (w'.grip u).current = some p) : w'.curProc u = p := by
  have hf := World.exec_frame he
  by_cases hu : u = t
  · subst hu
    rw [exec_grip_self he] at hp
    cases o with
    | attach q =>
      obtain ⟨w₁, hs, rfl⟩ := World.exec_step he
      obtain ⟨-, rfl⟩ := Prod.mk.inj (Option.some.inj hs)
      obtain rfl := Option.some.inj hp
      exact Function.update_self ..
    | detach q =>
      obtain ⟨w₁, hs, rfl⟩ := World.exec_step he
      obtain ⟨-, rfl⟩ := Prod.mk.inj (Option.some.inj hs)
      obtain rfl := Option.some.inj hp
      exact Function.update_self ..
    | currentProcess =>
      obtain ⟨w₁, hs, rfl⟩ := World.exec_step he
      obtain ⟨rfl, rfl⟩ := Prod.mk.inj (Option.some.inj hs)
      exact Option.some.inj hp
    | _ =>
      rw [hf.curProc id]
      exact hcurrent u p hp
  · rw [exec_grip_ne he hu] at hp
    rw [hf.others u hu]
    exact hcurrent u p hp

/-! ## A view comes -/

/-- An attempt to map leaves the views, or adds one where the process has none. -/
theorem exec_maps {a : Nat} {span : Span} {r : Except NtStatus UInt64} {w₁ : World}
    (hadd : w.addView t a span e = some (r, w₁)) :
    (∃ s, r = .error s ∧ w₁.views = w.views) ∨ ∃ va, r = .ok va ∧ w.vaFree (w.curProc t) va = true ∧
      w₁.views = ⟨a, w.curProc t, va, span⟩ :: w.views := by
  cases e with
  | address n =>
    simp only [World.addView, Option.ite_none_right_eq_some, Option.some.injEq, Prod.mk.injEq] at hadd
    obtain ⟨⟨hfree, -⟩, rfl, rfl⟩ := hadd
    exact .inr ⟨_, rfl, hfree, rfl⟩
  | fail s =>
    simp only [World.addView, Option.some.injEq, Prod.mk.injEq] at hadd
    obtain ⟨rfl, rfl⟩ := hadd
    exact .inl ⟨s, rfl, rfl⟩
  | _ => cases hadd

theorem exec_maps_subset {a : Nat} {span : Span} {r : Except NtStatus UInt64} {w₁ : World}
    (hadd : w.addView t a span e = some (r, w₁)) : w.views ⊆ w₁.views := by
  rcases exec_maps hadd with ⟨-, -, hviews⟩ | ⟨va, -, -, hviews⟩
  · rw [hviews]
    exact List.Subset.refl _
  · rw [hviews]
    exact List.subset_cons_self _ _

namespace World

theorem ViewsApart.subset (h : w.ViewsApart) (hv : w'.views ⊆ w.views) : w'.ViewsApart :=
  fun v hm v' hm' => h v (hv hm) v' (hv hm')

theorem ViewsApart.cons {v : View} (h : w.ViewsApart) (hfree : w.vaFree v.process v.va = true)
    (hv : w'.views = v :: w.views) : w'.ViewsApart := by
  have hne : ∀ u ∈ w.views, ¬ (u.process = v.process ∧ u.va = v.va) := by
    intro u hu heq
    have hall := List.all_eq_true.mp hfree u hu
    simp [heq] at hall
  intro u hu u' hu' hp hva
  rw [hv] at hu hu'
  rcases List.mem_cons.mp hu with rfl | hold
  · rcases List.mem_cons.mp hu' with rfl | hold'
    · rfl
    · exact (hne u' hold' ⟨hp.symm, hva.symm⟩).elim
  · rcases List.mem_cons.mp hu' with rfl | hold'
    · exact (hne u hold ⟨hp, hva⟩).elim
    · exact h u hold u' hold' hp hva

end World

/-! ## A view goes -/

/-- The address an operation unmaps at, and whether it unmaps a view made with an MDL. -/
def Op.unmapsAt : Op → Option (UInt64 × Bool)
  | .unmapLockedPages va _ => some (va, true)
  | .unmapView va => some (va, false)
  | _ => none

/-- An operation that unmaps leaves the views of other processes and at other addresses. -/
theorem exec_unmaps {va : UInt64} {d : Bool} (ho : o.unmapsAt = some (va, d)) (he : w.exec t o e = some (x, w')) :
    w'.views ⊆ w.views ∧ ∀ v ∈ w.views, ¬ (v.process = w.curProc t ∧ v.va = va) → v ∈ w'.views := by
  have hremove : ∀ d, (w.removeView t va d).views ⊆ w.views ∧
      ∀ v ∈ w.views, ¬ (v.process = w.curProc t ∧ v.va = va) → v ∈ (w.removeView t va d).views := by
    intro d
    refine ⟨List.filter_subset_self _, fun v hv hne => List.mem_filter.mpr ⟨hv, ?_⟩⟩
    simp only [Bool.not_eq_true', Bool.and_eq_false_iff, beq_eq_false_iff_ne]
    exact .inl (not_and_or.mp hne)
  obtain ⟨w₁, hs, rfl⟩ := World.exec_step he
  cases o with
  | unmapLockedPages base m =>
    obtain ⟨rfl, -⟩ := Prod.mk.inj (Option.some.inj ho)
    obtain ⟨-, rfl⟩ := Prod.mk.inj (Option.some.inj hs)
    exact hremove true
  | unmapView base =>
    obtain ⟨rfl, -⟩ := Prod.mk.inj (Option.some.inj ho)
    simp only [World.step] at hs
    split at hs
    · obtain ⟨-, rfl⟩ := Prod.mk.inj (Option.some.inj hs)
      exact hremove false
    · obtain ⟨-, rfl⟩ := Prod.mk.inj (Option.some.inj hs)
      exact ⟨List.Subset.refl _, fun v hv _ => hv⟩
  | _ => cases ho

/-- A view goes only where an operation unmaps the view in hand. -/
theorem exec_gone (he : w.exec t o e = some (x, w')) (ha : (w.grip t).allows o) {v : View} (hv : v ∈ w.views)
    (hgone : v ∉ w'.views) : ∃ va d, o.unmapsAt = some (va, d) ∧ (w.grip t).Holds va d := by
  have hf := World.exec_frame he
  cases o with
  | unmapLockedPages va m => exact ⟨va, true, rfl, ha⟩
  | unmapView va => exact ⟨va, false, rfl, ha⟩
  | mapLockedPages m wc a =>
    obtain ⟨w₁, hstep, rfl⟩ := World.exec_step he
    exact (hgone (exec_maps_subset hstep hv)).elim
  | mapView b n a =>
    obtain ⟨w₁, hstep, rfl⟩ := World.exec_step he
    exact (hgone (exec_maps_subset (addView_of_mapView hstep) hv)).elim
  | _ =>
    rw [hf.views id] at hgone
    exact (hgone hv).elim

/-- Another record's view than the one in hand has another address. -/
theorem World.Displayed.separate {r s : Showing} {i : Option Tid} (hm : w.Displayed) (hs : w.custody.Sound)
    (hr : (w.grip t).view = some r) (htold : w.ToldBy i s) (hi : i = some t → ∃ m ∈ (w.grip t).list, m.showing = s) :
    s.addr ≠ r.addr := by
  intro heq
  obtain ⟨h, hh, haddr⟩ := hm.held t r hr
  have hitems : ∀ u, w.custody.items (some u) = (w.grip u).toWork.items := by
    intro u
    rw [w.grip_toWork]
    rfl
  have hmine : h ∈ w.custody.items (some t) := by
    rw [hitems, Work.items, hh]
    exact List.mem_append_left _ (List.mem_singleton_self h)
  obtain ⟨y, hy, hya⟩ : ∃ y ∈ w.custody.items i, y.addr = s.addr := by
    cases i with
    | none =>
      obtain ⟨m, hmem, rfl⟩ := htold
      exact ⟨m.inHand, List.mem_map_of_mem hmem, rfl⟩
    | some u =>
      rw [hitems, Work.items]
      rcases htold with hv | ⟨m, hmem, rfl⟩
      · obtain ⟨h', hh', haddr'⟩ := hm.held u s hv
        rw [hh']
        exact ⟨h', List.mem_append_left _ (List.mem_singleton_self h'), haddr'⟩
      · exact ⟨m.inHand, List.mem_append_right _ (List.mem_map_of_mem hmem), rfl⟩
  obtain ⟨rfl, -⟩ := Allotted.unique placeOf_holder hs hmine hy (haddr.trans (heq.symm.trans hya.symm))
  -- on its own private list: the addresses there differ from the one in hand
  obtain ⟨m, hmem, rfl⟩ := hi rfl
  have hnodup := hs.nodup (some t)
  rw [hitems, Work.items, hh] at hnodup
  simp only [Option.toList_some, List.cons_append, List.nil_append, List.map_cons, List.nodup_cons] at hnodup
  apply hnodup.1
  rw [haddr, ← heq, List.map_map]
  exact List.mem_map_of_mem (f := InHand.addr ∘ UserMapping.inHand) hmem

/-- A view where a thread may unmap is the one in its hand. -/
theorem World.Displayed.inHand {va : UInt64} {d : Bool} (hm : w.Displayed) (ha : (w.grip t).Holds va d) {v : View}
    (hv : v ∈ w.views) (hp : v.process = w.curProc t) (hva : v.va = va) (hrun : w.procs v.process = .running) :
    (w.grip t).view = some v.showing := by
  obtain ⟨r, hr, hcur, rfl, -⟩ := ha
  have hproc : w.curProc t = r.process := hm.current t _ hcur
  obtain ⟨u, hu, hur⟩ := hm.told (some t) r (.inl hr) (hproc ▸ hp ▸ hrun)
  have heq : u = v := by
    apply hm.apart u hu v hv
    · exact (congrArg Showing.process hur).trans (hproc.symm.trans hp.symm)
    · exact (congrArg Showing.va hur).trans hva.symm
  rw [hr, ← hur, heq]

/-- An unmapping unmaps no view that another record tells of. -/
theorem exec_unmaps_visible {va : UInt64} {d : Bool} (ho : o.unmapsAt = some (va, d))
    (he : w.exec t o e = some (x, w')) (ha : (w.grip t).Holds va d) (hm : w.Displayed) (hs : w.custody.Sound)
    {i : Option Tid} {s : Showing} (htold : w.ToldBy i s)
    (hi : i = some t → ∃ m ∈ (w.grip t).list, m.showing = s) (hrun : w.procs s.process = .running) :
    w'.Visible s := by
  obtain ⟨v, hv, rfl⟩ := hm.told i s htold hrun
  refine ⟨v, (exec_unmaps ho he).2 v hv ?_, rfl⟩
  rintro ⟨hp, hva⟩
  have hmine := hm.inHand ha hv hp hva hrun
  exact hm.separate hs hmine htold hi rfl

/-- The thread has the record of the view in its hand. -/
theorem World.Displayed.has {r : Showing} (hm : w.Displayed) (hs : w.custody.Sound)
    (hr : (w.grip t).view = some r) : w.Has t r.addr := by
  obtain ⟨y, hy, hya⟩ := hm.held t r hr
  have hmem : y ∈ w.custody.items (some t) := by
    show y ∈ (w.work t).items
    rw [← w.grip_toWork t, Work.items, hy]
    exact List.mem_append_left _ (List.mem_singleton_self y)
  refine ⟨placeOf (some t) y, hya ▸ hs.placed (some t) y hmem, ?_⟩
  show (if y.inserted then Place.detached t else Place.building t).owner = some t
  cases y.inserted <;> rfl

/-- After an unmapping what is told is visible. -/
theorem exec_unmaps_told {va : UInt64} {d : Bool} (ho : o.unmapsAt = some (va, d))
    (he : w.exec t o e = some (x, w')) (ha : (w.grip t).Holds va d) (hm : w.Displayed) (hs : w.custody.Sound)
    {i : Option Tid} {s : Showing} (h : w'.ToldBy i s) (hrun : w.procs s.process = .running) : w'.Visible s := by
  have hbefore : w.ToldBy i s ∧ (i = some t → ∃ m ∈ (w.grip t).list, m.showing = s) := by
    have hlist : w'.ctx.mappingList = w.ctx.mappingList := by
      rw [(World.exec_frame he).ctx]
      cases o with
      | unmapLockedPages => rfl
      | unmapView => rfl
      | _ => cases ho
    apply told_of_exec he
      (P := fun i s => w.ToldBy i s ∧ (i = some t → ∃ m ∈ (w.grip t).list, m.showing = s)) _ _ _ _ h
    · intro m hm
      exact ⟨⟨m, hlist ▸ hm, rfl⟩, fun heq => by cases heq⟩
    · intro r hr
      cases o with
      | unmapLockedPages => cases hr
      | unmapView => cases hr
      | _ => cases ho
    · intro m hm
      cases o with
      | unmapLockedPages => exact ⟨.inr ⟨m, hm, rfl⟩, fun _ => ⟨m, hm, rfl⟩⟩
      | unmapView => exact ⟨.inr ⟨m, hm, rfl⟩, fun _ => ⟨m, hm, rfl⟩⟩
      | _ => cases ho
    · exact fun u r hu htold => ⟨htold, fun heq => absurd (Option.some.inj heq) hu⟩
  exact exec_unmaps_visible ho he ha hm hs hbefore.1 hbefore.2 hrun

/-- After an attempt to map what is told is visible. -/
theorem exec_maps_told {a : Nat} {span : Span} {r : Except NtStatus UInt64} {w₁ : World}
    (hadd : w.addView t a span e = some (r, w₁)) (he : w.exec t o e = some (x, w')) (hw : w'.views = w₁.views)
    (herror : ∀ st, r = .error st → Grip.nextView ⟨o, x⟩ (w.grip t) = (w.grip t).view)
    (hok : ∀ va, r = .ok va →
      Grip.nextView ⟨o, x⟩ (w.grip t) = (w.grip t).current.map fun p => ⟨a, p, va, span.frames⟩)
    (hlist : w'.ctx.mappingList = w.ctx.mappingList)
    (hmine : ((w.grip t).toWork.next ⟨o, x⟩).list = (w.grip t).list) (hm : w.Displayed) {i : Option Tid} {s : Showing}
    (h : w'.ToldBy i s) (hrun : w.procs s.process = .running) : w'.Visible s := by
  have hsub : w.views ⊆ w'.views := by
    rw [hw]
    exact exec_maps_subset hadd
  have hcases : (∃ j, w.ToldBy j s) ∨ ∃ va, r = .ok va ∧ s = ⟨a, w.curProc t, va, span.frames⟩ := by
    apply told_of_exec he (P := fun _ s => (∃ j, w.ToldBy j s) ∨
      ∃ va, r = .ok va ∧ s = ⟨a, w.curProc t, va, span.frames⟩) _ _ _ _ h
    · intro m hm
      exact .inl (told_list (hlist ▸ hm))
    · intro s hs
      cases r with
      | error st => exact .inl (told_view ((herror st rfl).symm.trans hs))
      | ok va =>
        rw [hok va rfl] at hs
        obtain ⟨p, hp, rfl⟩ := Option.map_eq_some_iff.mp hs
        exact .inr ⟨va, rfl, by rw [hm.current t p hp]⟩
    · intro m hm
      exact .inl (told_mine (hmine ▸ hm))
    · exact fun u r _ htold => .inl ⟨some u, htold⟩
  rcases hcases with ⟨j, hj⟩ | ⟨va, hr, rfl⟩
  · obtain ⟨v, hv, rfl⟩ := hm.told j s hj hrun
    exact ⟨v, hsub hv, rfl⟩
  · rcases exec_maps hadd with ⟨s, hs, -⟩ | ⟨va', hs, -, hviews⟩
    · rw [hr] at hs
      cases hs
    · obtain rfl : va = va' := Except.ok.inj (hr.symm.trans hs)
      refine ⟨⟨a, w.curProc t, va, span⟩, ?_, rfl⟩
      rw [hw, hviews]
      exact List.mem_cons_self

/-- After any operation what is told is visible. -/
theorem exec_displayed_told (he : w.exec t o e = some (x, w')) (hwork : (w.work t).allows o)
    (ha : (w.grip t).allows o) (hm : w.Displayed) (hs : w.custody.Sound) {i : Option Tid} {s : Showing}
    (h : w'.ToldBy i s) (hrun : w'.procs s.process = .running) : w'.Visible s := by
  have hf := World.exec_frame he
  rw [hf.procs] at hrun
  have hstill : ¬ o.mapsView → ¬ o.movesViews → w'.Visible s := by
    intro hmap hviews
    obtain ⟨j, hj⟩ := exec_told he hwork ha hmap h
    unfold World.Visible
    rw [hf.views hviews]
    exact hm.told j s hj hrun
  cases o with
  | mapLockedPages m wc a =>
    obtain ⟨w₁, hstep, rfl⟩ := World.exec_step he
    apply exec_maps_told hstep he rfl _ _ (by rw [hf.ctx]; rfl) rfl hm h hrun
    · rintro st rfl
      rfl
    · rintro va rfl
      rfl
  | mapView b n a =>
    obtain ⟨w₁, hstep, rfl⟩ := World.exec_step he
    apply exec_maps_told (addView_of_mapView hstep) he rfl _ _ (by rw [hf.ctx]; rfl) rfl hm h hrun
    · rintro st rfl
      rfl
    · rintro va rfl
      rfl
  | unmapLockedPages va m => exact exec_unmaps_told (o := .unmapLockedPages va m) rfl he ha hm hs h hrun
  | unmapView va => exact exec_unmaps_told (o := .unmapView va) rfl he ha hm hs h hrun
  | _ => exact hstill id id

theorem exec_apart (he : w.exec t o e = some (x, w')) (h : w.ViewsApart) : w'.ViewsApart := by
  have hf := World.exec_frame he
  have hadded : ∀ {a : Nat} {span : Span} {r : Except NtStatus UInt64} {w₁ : World},
      w.addView t a span e = some (r, w₁) → w'.views = w₁.views → w'.ViewsApart := by
    intro a span r w₁ hadd hw
    rcases exec_maps hadd with ⟨-, -, hviews⟩ | ⟨va, -, hfree, hviews⟩
    · exact h.subset (by rw [hw, hviews]; exact List.Subset.refl _)
    · exact h.cons (v := ⟨a, w.curProc t, va, span⟩) hfree (hw.trans hviews)
  cases o with
  | mapLockedPages m wc a =>
    obtain ⟨w₁, hstep, rfl⟩ := World.exec_step he
    exact hadded hstep rfl
  | mapView b n a =>
    obtain ⟨w₁, hstep, rfl⟩ := World.exec_step he
    exact hadded (addView_of_mapView hstep) rfl
  | unmapLockedPages va m => exact h.subset (exec_unmaps (o := .unmapLockedPages va m) rfl he).1
  | unmapView va => exact h.subset (exec_unmaps (o := .unmapView va) rfl he).1
  | _ =>
    apply h.subset
    rw [hf.views id]
    exact List.Subset.refl _

theorem exec_displayed (he : w.exec t o e = some (x, w')) (hwork : (w.work t).allows o)
    (ha : (w.grip t).allows o) (hm : w.Displayed) (hs : w.custody.Sound) : w'.Displayed where
  apart := exec_apart he hm.apart
  current u p hp := exec_current he hm.current hp
  held u r hr := by
    by_cases hu : u = t
    · subst hu
      exact exec_held he hwork ha (hm.held u) hr
    · rw [exec_grip_ne he hu] at hr ⊢
      exact hm.held u r hr
  told i r h hrun := exec_displayed_told he hwork ha hm hs h hrun

end Exec

/-! ## Every reachable state -/

/-- A thread that begins a call has nothing in its hands. -/
theorem begins_displayed {L : Tid → Prop} {t : Tid} {p : Drv Unit} {w w' : World} (hb : Begins L t p w w')
    (hm : w.Displayed) : w'.Displayed := by
  have hself : w'.grip t = {} := by
    unfold World.grip
    rw [begins_hist_self hb]
    rfl
  have hother : ∀ u, u ≠ t → w'.grip u = w.grip u := by
    intro u hu
    unfold World.grip
    rw [begins_hist hb hu]
  have hviews : w'.views = w.views ∧ w'.procs = w.procs ∧ ∀ u, u ≠ t → w'.curProc u = w.curProc u := by
    cases hb <;> exact ⟨rfl, rfl, fun u hu => Function.update_of_ne hu ..⟩
  obtain ⟨hviews, hprocs, hcurProc⟩ := hviews
  refine ⟨?_, fun u q hq => ?_, fun u r hr => ?_, fun i r h hrun => ?_⟩
  · exact hm.apart.subset (by rw [hviews]; exact List.Subset.refl _)
  · by_cases hu : u = t
    · subst hu
      rw [hself] at hq
      cases hq
    · rw [hother u hu] at hq
      rw [hcurProc u hu]
      exact hm.current u q hq
  · by_cases hu : u = t
    · subst hu
      rw [hself] at hr
      cases hr
    · rw [hother u hu] at hr ⊢
      exact hm.held u r hr
  · have htold : w.ToldBy i r := by
      cases i with
      | none =>
        unfold World.ToldBy at h
        rwa [begins_ctx hb] at h
      | some u =>
        by_cases hu : u = t
        · subst hu
          simp [World.ToldBy, hself] at h
        · simp only [World.ToldBy, hother u hu] at h
          exact h
    unfold World.Visible
    rw [hviews]
    rw [hprocs] at hrun
    exact hm.told i r htold hrun

theorem environment_displayed {w w' : World} (he : Environment w w') (hm : w.Displayed) : w'.Displayed := by
  cases he with
  | exits p hp =>
    refine ⟨hm.apart, hm.current, hm.held, fun i r h hrun => hm.told i r h ?_⟩
    by_cases hr : r.process = p
    · simp [hr] at hrun
    · simpa [hr] using hrun
  | gone p hp =>
    refine ⟨hm.apart.subset (List.filter_subset_self _), hm.current, hm.held, fun i r h hrun => ?_⟩
    have hr : r.process ≠ p := by
      intro heq
      simp [heq] at hrun
    have hrun : w.procs r.process = .running := by simpa [hr] using hrun
    obtain ⟨v, hv, rfl⟩ := hm.told i r h hrun
    refine ⟨v, List.mem_filter.mpr ⟨hv, ?_⟩, rfl⟩
    have hne : v.process ≠ p := hr
    simpa using hne
  | buffer b => exact ⟨hm.apart, hm.current, hm.held, hm.told⟩

theorem initial_displayed {w : World} (hw : w.Initial) : w.Displayed := by
  obtain ⟨buffer, rfl⟩ := hw
  constructor
  · intro v hv
    cases hv
  · intro t p hp
    cases hp
  · intro t s hs
    cases hs
  · intro i s h
    cases i with
    | none =>
      obtain ⟨m, hm, -⟩ := h
      cases hm
    | some t =>
      rcases h with h | ⟨m, hm, -⟩
      · cases h
      · cases hm

theorem reach_displayed {c : DriverConfig} (h : Reach driver anyStep c) : c.world.Displayed := by
  obtain ⟨w, hw, hr⟩ := h
  induction hr with
  | refl => exact initial_displayed hw
  | @tail c₁ c₂ hr hs ih =>
    have hreach : Reach driver anyStep c₁ := ⟨w, hw, hr⟩
    cases hs with
    | begins _ hb => exact begins_displayed hb ih
    | @ends t w' hpool he =>
      obtain rfl : w' = c₁.world.leave t := he
      have hsame : ∀ w : World, w.Displayed → (w.leave t).Displayed := by
        intro w hm
        cases t <;> exact ⟨hm.apart, hm.current, hm.held, hm.told⟩
      exact hsame _ ih
    | env he => exact environment_displayed he ih
    | @exec t o k e x w' hpool _ he =>
      exact exec_displayed he (reach_works hreach hpool).1 (reach_grips hreach hpool).1 ih (reach_custody hreach)

/-- A view of a running process goes only where a thread performs an operation: no call takes one by its begin or
its end, and no process loses one that has not begun to terminate. -/
theorem step_gone {allow : Tid → Op → World → Prop} {c c' : DriverConfig} (h : Step driver allow c c') {v : View}
    (hv : v ∈ c.world.views) (hgone : v ∉ c'.world.views) (hrun : c.world.procs v.process = .running) :
    ∃ t o x, Own driver allow t o x c c' := by
  cases h with
  | begins _ hb =>
    rw [Config.set_world, (begins_records hb).2.1] at hgone
    exact absurd hv hgone
  | @exec t o k e x w hpool ha he => exact ⟨t, o, x, .exec hpool ha he⟩
  | @ends t w hpool he =>
    obtain rfl : w = c.world.leave t := he
    have hviews : (c.world.leave t).views = c.world.views := by cases t <;> rfl
    rw [Config.set_world, hviews] at hgone
    exact absurd hv hgone
  | env he =>
    cases he with
    | exits p hp => exact absurd hv hgone
    | gone p hp =>
      have hne : v.process ≠ p := by
        rintro rfl
        rw [hrun] at hp
        cases hp
      exact absurd (List.mem_filter.mpr ⟨hv, by simpa using hne⟩) hgone
    | buffer b => exact absurd hv hgone

/-- What is listed is mapped. In every reachable state the view of every listed record is there as long as its
process runs: made for this record, in its process, at its address, and for BARs and windows with exactly the
pages of its MDL. Two listed records of one running process are at different addresses. And a view of a running
process goes only by an operation of the thread that has the view's record, never while it is listed, and by no
other step of the system. -/
theorem mappings_stay_mapped {c : DriverConfig} (h : Reach driver anyStep c) :
    (∀ m ∈ c.world.ctx.mappingList, c.world.procs m.process = .running → c.world.Visible m.showing) ∧
    (∀ m ∈ c.world.ctx.mappingList, ∀ m' ∈ c.world.ctx.mappingList, c.world.procs m.process = .running →
      m.process = m'.process → m.viewVa = m'.viewVa → m = m') ∧
    (∀ t o k e x w, c.pool t = some (.vis o k) → c.world.exec t o e = some (x, w) →
      ∀ v ∈ c.world.views, v ∉ w.views → c.world.procs v.process = .running → c.world.Has t v.addr) ∧
    ∀ c', Step driver anyStep c c' → ∀ v ∈ c.world.views, v ∉ c'.world.views →
      c.world.procs v.process = .running → ∃ t o x, Own driver anyStep t o x c c' ∧ c.world.Has t v.addr := by
  have hm := reach_displayed h
  have hs := reach_custody h
  have hlisted : ∀ m ∈ c.world.ctx.mappingList, c.world.procs m.process = .running → c.world.Visible m.showing :=
    fun m hmem hrun => hm.told none m.showing ⟨m, hmem, rfl⟩ hrun
  have htaker : ∀ t o k e x w, c.pool t = some (.vis o k) → c.world.exec t o e = some (x, w) →
      ∀ v ∈ c.world.views, v ∉ w.views → c.world.procs v.process = .running → c.world.Has t v.addr := by
    intro t o k e x w hpool he v hv hgone hrun
    obtain ⟨va, d, ho, hholds⟩ := exec_gone he (reach_grips h hpool).1 hv hgone
    obtain ⟨hp, hva⟩ : v.process = c.world.curProc t ∧ v.va = va :=
      not_not.mp fun hne => hgone ((exec_unmaps ho he).2 v hv hne)
    exact hm.has hs (hm.inHand hholds hv hp hva hrun)
  refine ⟨hlisted, fun m hmem m' hmem' hrun hp hva => ?_, htaker, fun c' hstep v hv hgone hrun => ?_⟩
  · obtain ⟨v, hv, hshow⟩ := hlisted m hmem hrun
    obtain ⟨v', hv', hshow'⟩ := hlisted m' hmem' (hp ▸ hrun)
    have heq : v = v' := by
      apply hm.apart v hv v' hv'
      · exact (congrArg Showing.process hshow).trans (hp.trans (congrArg Showing.process hshow').symm)
      · exact (congrArg Showing.va hshow).trans (hva.trans (congrArg Showing.va hshow').symm)
    have haddr : m.addr = m'.addr :=
      (congrArg Showing.addr hshow).symm.trans ((congrArg View.addr heq).trans (congrArg Showing.addr hshow'))
    have hnodup := hs.nodup none
    simp only [Custody.items, List.map_map] at hnodup
    exact List.inj_on_of_nodup_map hnodup hmem hmem' haddr
  · obtain ⟨t, o, x, hown⟩ := step_gone hstep hv hgone hrun
    refine ⟨t, o, x, hown, ?_⟩
    cases hown with
    | exec hpool _ he => exact htaker t o _ _ x _ hpool he v hv hgone hrun

/-- Process 1 has the first page of BAR 0 mapped. -/
theorem mappings_stay_mapped_page : ∃ c : DriverConfig, Reach driver anyStep c ∧
    ∃ m ∈ c.world.ctx.mappingList, m.process = 1 ∧ m.userVa = 0x20000 ∧ c.world.Visible m.showing := by
  have hplay : (DriverConfig.play (fun _ _ _ => true) mapsPage idle).any (fun c =>
      c.world.procs 1 == .running && c.world.ctx.mappingList.any fun m => m.process == 1 && m.userVa == 0x20000) =
        true := by decide +kernel
  obtain ⟨c, hreach, hend⟩ := DriverConfig.exists_reach (DriverConfig.implies_anyStep _) hplay
  simp only [Bool.and_eq_true, beq_iff_eq, List.any_eq_true] at hend
  obtain ⟨hrun, m, hm, hp, hva⟩ := hend
  exact ⟨c, hreach, m, hm, hp, hva, (mappings_stay_mapped hreach).1 m hm (hp.symm ▸ hrun)⟩

/-! ## Attached to another process -/

/-- The thread is in the process its call began in, or attached from there to another one. -/
def World.AtHome (w : World) (t : Tid) (home : Process) : Prop :=
  ((w.grip t).saved = none ∧ w.curProc t = home) ∨ ((w.grip t).saved = some home ∧ w.curProc t ≠ home)

theorem World.AtHome.congr {w w' : World} {t : Tid} {home : Process} (h : w.AtHome t home)
    (hgrip : (w'.grip t).saved = (w.grip t).saved) (hproc : w'.curProc t = w.curProc t) : w'.AtHome t home := by
  unfold World.AtHome
  rw [hgrip, hproc]
  exact h

/-- An operation of the thread attaches it from home, or detaches it to there, or leaves it where it is. -/
theorem exec_atHome {t : Tid} {o : Op} {e : Choice} {w w' : World} {x : o.Ans} {home : Process}
    (he : w.exec t o e = some (x, w')) (ha : (w.grip t).allows o) (hm : w.Displayed) (h : w.AtHome t home) :
    w'.AtHome t home := by
  cases o with
  | attach p =>
    obtain ⟨hsaved, q, hq, hne⟩ := ha
    have hcur : w.curProc t = q := hm.current t q hq
    have hhome : w.curProc t = home := by
      rcases h with ⟨-, hp⟩ | ⟨hs, -⟩
      · exact hp
      · rw [hsaved] at hs
        cases hs
    have hgrip := exec_grip_self he
    obtain ⟨w₁, hs, rfl⟩ := World.exec_step he
    obtain ⟨rfl, rfl⟩ := Prod.mk.inj (Option.some.inj hs)
    refine .inr ⟨?_, ?_⟩
    · rw [hgrip]
      exact congrArg some hhome
    · show Function.update w.curProc t p t ≠ home
      rw [Function.update_self, ← hhome, hcur]
      exact Ne.symm hne
  | detach p =>
    have hsaved : (w.grip t).saved = some p := ha
    have hhome : p = home := by
      rcases h with ⟨hs, -⟩ | ⟨hs, -⟩
      · rw [hsaved] at hs
        cases hs
      · exact Option.some.inj (hsaved.symm.trans hs)
    have hgrip := exec_grip_self he
    obtain ⟨w₁, hs, rfl⟩ := World.exec_step he
    obtain ⟨-, rfl⟩ := Prod.mk.inj (Option.some.inj hs)
    refine .inl ⟨?_, ?_⟩
    · rw [hgrip]
      rfl
    · show Function.update w.curProc t p t = home
      rw [Function.update_self, hhome]
  | _ =>
    apply h.congr
    · rw [exec_grip_self he]
      rfl
    · rw [(World.exec_frame he).curProc id]

/-- Within a call, a thread stays at home but for its attaching. -/
theorem upheld_atHome (t : Tid) (home : Process) :
    Upheld driver anyStep t (fun _ (_ : Unit) => ()) (fun _ w => w.AtHome t home) where
  own hreach hown h := by
    cases hown with
    | exec hpool _ he => exact exec_atHome he (reach_grips hreach hpool).1 (reach_displayed hreach) h
  begins hu hb h := by
    apply World.AtHome.congr h
    · unfold World.grip
      rw [begins_hist hb (Ne.symm hu)]
    · cases hb <;> exact Function.update_of_ne (Ne.symm hu) ..
  other _ _ hu hown h := by
    cases hown with
    | exec _ _ he =>
      apply World.AtHome.congr h
      · rw [Config.set_world, exec_grip_ne he (Ne.symm hu)]
      · rw [Config.set_world, (World.exec_frame he).others t (Ne.symm hu)]
  ends {u w w' _} _ he h := by
    obtain rfl : w' = w.leave u := he
    cases u <;> exact h
  env he h := by cases he <;> exact h

/-- Threads attach to do one thing. In every call of every run, a thread attaches only from the process its call
began in, and only to another one; while it is there it does nothing but map or unmap a view and detach; it
detaches to where it came from; and so it takes no lock, completes no request and does not end its call but in the
process the call began in. -/
theorem attached_only_to_map {c c' : DriverConfig} {t : Tid} (h : Reach driver anyStep c)
    (hbegun : c.world.hist t = []) (hlive : c.live t) (hrun : During driver anyStep t c c') :
    ∃ q, c'.pool t = some q ∧
      (c'.world.curProc t ≠ c.world.curProc t → ∃ (o : Op) (k : o.Ans → Drv Unit), q = .vis o k ∧
        (o.movesViews ∨ o = .detach (c.world.curProc t))) ∧
      (∀ (p : Process) (k : Process → Drv Unit), q = .vis (.attach p) k →
        c'.world.curProc t = c.world.curProc t ∧ p ≠ c.world.curProc t) ∧
      ∀ (p : Process) (k : Unit → Drv Unit), q = .vis (.detach p) k → p = c.world.curProc t := by
  obtain ⟨p, hp⟩ := Option.ne_none_iff_exists'.mp hlive
  have hstart : c.world.AtHome t (c.world.curProc t) := by
    refine .inl ⟨?_, rfl⟩
    unfold World.grip
    rw [hbegun]
    rfl
  obtain ⟨-, q, hq, -, hhome⟩ := During.state (s := ()) (upheld_atHome t (c.world.curProc t)) h hrun hp hstart
  have hreach := h.run hrun.run
  have hgrips := reach_grips hreach hq
  refine ⟨q, hq, fun haway => ?_, fun p k hvis => ?_, fun p k hvis => ?_⟩
  · obtain ⟨hsaved, -⟩ := hhome.resolve_left fun hh => haway hh.2
    cases q with
    | pure a =>
      rw [hgrips.saved] at hsaved
      cases hsaved
    | vis o k => exact ⟨o, k, rfl, Grip.allows_away hsaved hgrips.1⟩
  · subst hvis
    obtain ⟨hsaved, r, hr, hne⟩ := hgrips.1
    obtain ⟨-, hcur⟩ := hhome.resolve_right fun hh => by
      rw [hsaved] at hh
      cases hh.1
    refine ⟨hcur, ?_⟩
    rw [← hcur, (reach_displayed hreach).current t r hr]
    exact Ne.symm hne
  · subst hvis
    have hsaved : (c'.world.grip t).saved = some p := hgrips.1
    rcases hhome with ⟨hnone, -⟩ | ⟨hsome, -⟩
    · rw [hsaved] at hnone
      cases hnone
    · exact Option.some.inj (hsaved.symm.trans hsome)

/-- Handle 1 is closed in process 2, and its cleanup attaches to process 1, where its mapping is. -/
theorem attached_only_to_map_cleanup : ∃ c c' : DriverConfig, Reach driver anyStep c ∧
    During driver anyStep (.cleanup 1) c c' ∧ c.world.curProc (.cleanup 1) = 2 ∧
    c'.world.curProc (.cleanup 1) = 1 ∧ ∃ (o : Op) (k : o.Ans → Drv Unit),
      c'.pool (.cleanup 1) = some (.vis o k) ∧ (o.movesViews ∨ o = .detach 2) := by
  have hplay : (DriverConfig.play (fun _ _ _ => true) (mapsPage ++ [.cleanup 1 2]) idle).any (fun c =>
      (c.world.hist (.cleanup 1)).isEmpty && (c.pool (.cleanup 1)).isSome && c.world.curProc (.cleanup 1) == 2 &&
        (DriverConfig.ops (fun _ _ _ => true) (.cleanup 1) (plainOps 4) c).any fun c' =>
          c'.world.curProc (.cleanup 1) == 1) = true := by decide +kernel
  obtain ⟨c, hreach, hend⟩ := DriverConfig.exists_reach (DriverConfig.implies_anyStep _) hplay
  simp only [Bool.and_eq_true, beq_iff_eq, Option.any_eq_true, List.isEmpty_iff] at hend
  obtain ⟨⟨⟨hbegun, hlive⟩, hfrom⟩, c', hops, haway⟩ := hend
  have hduring : During driver anyStep (.cleanup 1) c c' :=
    DriverConfig.during_of_ops (DriverConfig.implies_anyStep _) hops
  have hlive : c.live (.cleanup 1) := Option.isSome_iff_ne_none.mp hlive
  obtain ⟨q, hq, hat, -⟩ := attached_only_to_map hreach hbegun hlive hduring
  rw [hfrom, haway] at hat
  obtain ⟨o, k, rfl, ho⟩ := hat (by decide)
  exact ⟨c, c', hreach, hduring, hfrom, haway, o, k, hq, ho⟩

end TtWind
