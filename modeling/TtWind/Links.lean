import Mathlib.Data.List.Nodup
import Mathlib.Logic.Equiv.Basic
import Mathlib.Logic.Function.Basic

/-!
# Circular doubly linked lists

Lists threaded through their nodes: every node has a forward and a backward link, and a list is
a circle through its head. The operations are the ones of LIST_ENTRY in the Windows headers,
assignment by assignment. `Circle l h es` says that the links `l` make a circle from the head `h`
through the entries `es`. Each operation has one lemma on what it makes of the circle it works on,
and one on the nodes it leaves alone.
-/

set_option autoImplicit false

namespace TtWind

/-- The links of all nodes. -/
structure Links (A : Type) where
  flink : A → A
  blink : A → A

namespace Links

variable {A : Type} [DecidableEq A]

def setFlink (x y : A) (l : Links A) : Links A := { l with flink := Function.update l.flink x y }

def setBlink (x y : A) (l : Links A) : Links A := { l with blink := Function.update l.blink x y }

@[simp] theorem setFlink_flink (x y u : A) (l : Links A) :
    (l.setFlink x y).flink u = if u = x then y else l.flink u := Function.update_apply ..

@[simp] theorem setFlink_blink (x y u : A) (l : Links A) : (l.setFlink x y).blink u = l.blink u := rfl

@[simp] theorem setBlink_flink (x y u : A) (l : Links A) : (l.setBlink x y).flink u = l.flink u := rfl

@[simp] theorem setBlink_blink (x y u : A) (l : Links A) :
    (l.setBlink x y).blink u = if u = x then y else l.blink u := Function.update_apply ..

/-! ## The operations -/

/-- `InitializeListHead`. -/
def initializeListHead (h : A) (l : Links A) : Links A := (l.setBlink h h).setFlink h h

/-- `IsListEmpty`. -/
def isListEmpty (h : A) (l : Links A) : Bool := l.flink h == h

/-- `InsertTailList`. -/
def insertTailList (h e : A) (l : Links A) : Links A :=
  let last := l.blink h
  let l := l.setFlink e h
  let l := l.setBlink e last
  let l := l.setFlink last e
  l.setBlink h e

/-- `RemoveEntryList`. -/
def removeEntryList (e : A) (l : Links A) : Links A :=
  let following := l.flink e
  let preceding := l.blink e
  let l := l.setFlink preceding following
  l.setBlink following preceding

/-- `RemoveHeadList`: the entry, and the links without it. -/
def removeHeadList (h : A) (l : Links A) : A × Links A :=
  let e := l.flink h
  let following := l.flink e
  let l := l.setFlink h following
  (e, l.setBlink following h)

/-- The search loop `for (entry = h->Flink; entry != h; entry = entry->Flink)` from an entry on,
with so many rounds at most. -/
def searchFrom (h : A) (test : A → Bool) (l : Links A) : Nat → A → Option (Option A)
  | 0, _ => none
  | rounds + 1, x =>
    if x = h then some none
    else if test x then some (some x)
    else searchFrom h test l rounds (l.flink x)

/-- The loop that moves the entries which pass a test to another list, from an entry on; the next
entry is read before this one is moved. -/
def moveFrom (h h' : A) (test : A → Bool) : Nat → A → Links A → Option (Links A)
  | 0, _, _ => none
  | rounds + 1, x, l =>
    if x = h then some l
    else
      let next := l.flink x
      moveFrom h h' test rounds next
        (if test x then (l.removeEntryList x).insertTailList h' x else l)

/-- A whole list, not empty, moved to another head: the head is copied, its neighbours are linked
to the copy, and the old head is initialized. -/
def splice (h h' : A) (l : Links A) : Links A :=
  let l := (l.setFlink h' (l.flink h)).setBlink h' (l.blink h)
  let l := l.setBlink (l.flink h') h'
  let l := l.setFlink (l.blink h') h'
  l.initializeListHead h

/-! ## Circles -/

/-- The links lead from `x` through `es` to `y`, and back. -/
def Segment (l : Links A) : A → List A → A → Prop
  | x, [], y => l.flink x = y ∧ l.blink y = x
  | x, e :: es, y => l.flink x = e ∧ l.blink e = x ∧ l.Segment e es y

/-- A list with this head and these entries, all different. -/
structure Circle (l : Links A) (h : A) (es : List A) : Prop where
  closed : l.Segment h es h
  nodup : (h :: es).Nodup

/-- The node's links are the same. -/
def Same (l l' : Links A) (u : A) : Prop := l'.flink u = l.flink u ∧ l'.blink u = l.blink u

variable {l l' : Links A} {x y y' h h' e : A} {es es' : List A}

omit [DecidableEq A] in
theorem segment_append : l.Segment x (es ++ e :: es') y ↔ l.Segment x es e ∧ l.Segment e es' y := by
  induction es generalizing x with
  | nil => exact and_assoc.symm
  | cons e' es ih =>
    show l.flink x = e' ∧ l.blink e' = x ∧ l.Segment e' (es ++ e :: es') y ↔ _
    rw [ih]
    exact ⟨fun ⟨hf, hb, hs, hr⟩ => ⟨⟨hf, hb, hs⟩, hr⟩, fun ⟨⟨hf, hb, hs⟩, hr⟩ => ⟨hf, hb, hs, hr⟩⟩

omit [DecidableEq A] in
/-- Where a segment ends, the way back leads to its last node. -/
theorem Segment.blink_mem (hs : l.Segment x es y) : l.blink y ∈ x :: es := by
  induction es generalizing x with
  | nil => exact hs.2 ▸ List.mem_cons_self
  | cons e es ih => exact List.mem_cons_of_mem _ (ih hs.2.2)

omit [DecidableEq A] in
theorem Segment.flink_eq (hs : l.Segment x es y) : l.flink x = (es ++ [y]).head (by simp) := by
  cases es with
  | nil => exact hs.1
  | cons e es => exact hs.1

omit [DecidableEq A] in
theorem Segment.congr (hs : l.Segment x es y) (hf : ∀ u ∈ x :: es, l'.flink u = l.flink u)
    (hb : ∀ u ∈ es ++ [y], l'.blink u = l.blink u) : l'.Segment x es y := by
  induction es generalizing x with
  | nil =>
    refine ⟨?_, ?_⟩
    · rw [hf x List.mem_cons_self]
      exact hs.1
    · rw [hb y (List.mem_singleton.mpr rfl)]
      exact hs.2
  | cons e es ih =>
    obtain ⟨hfirst, hback, hrest⟩ := hs
    refine ⟨?_, ?_, ih hrest (fun u hu => hf u (List.mem_cons_of_mem _ hu)) fun u hu =>
      hb u (List.mem_cons_of_mem _ hu)⟩
    · rw [hf x List.mem_cons_self]
      exact hfirst
    · rw [hb e List.mem_cons_self]
      exact hback

omit [DecidableEq A] in
/-- The last node of a segment linked to another end. -/
theorem Segment.retarget (hs : l.Segment x es y) (hnodup : (x :: es).Nodup)
    (hf : ∀ u ∈ x :: es, u ≠ l.blink y → l'.flink u = l.flink u)
    (hb : ∀ u ∈ es, l'.blink u = l.blink u) (hlast : l'.flink (l.blink y) = y')
    (hback : l'.blink y' = l.blink y) : l'.Segment x es y' := by
  induction es generalizing x with
  | nil =>
    obtain ⟨-, hy⟩ := hs
    rw [hy] at hlast hback
    exact ⟨hlast, hback⟩
  | cons e es ih =>
    obtain ⟨hfirst, hprev, hrest⟩ := hs
    have hne : x ≠ l.blink y := by
      rintro rfl
      exact (List.nodup_cons.mp hnodup).1 hrest.blink_mem
    refine ⟨?_, ?_, ih hrest (List.nodup_cons.mp hnodup).2 (fun u hu => hf u (List.mem_cons_of_mem _ hu))
      fun u hu => hb u (List.mem_cons_of_mem _ hu)⟩
    · rw [hf x List.mem_cons_self hne]
      exact hfirst
    · rw [hb e List.mem_cons_self]
      exact hprev

omit [DecidableEq A] in
theorem Circle.congr (hc : l.Circle h es) (hsame : ∀ u ∈ h :: es, l.Same l' u) : l'.Circle h es := by
  refine ⟨hc.closed.congr (fun u hu => (hsame u hu).1) fun u hu => ?_, hc.nodup⟩
  apply (hsame u _).2
  rcases List.mem_append.mp hu with hu | hu
  · exact List.mem_cons_of_mem _ hu
  · rw [List.mem_singleton.mp hu]
    exact List.mem_cons_self

omit [DecidableEq A] in
theorem Segment.unique (hs : l.Segment x es h) (hs' : l.Segment x es' h) (hh : h ∉ es) (hh' : h ∉ es') :
    es = es' := by
  induction es generalizing x es' with
  | nil =>
    cases es' with
    | nil => rfl
    | cons e es' => exact absurd (hs.1.symm.trans hs'.1 ▸ List.mem_cons_self) hh'
  | cons e es ih =>
    cases es' with
    | nil => exact absurd (hs'.1.symm.trans hs.1 ▸ List.mem_cons_self) hh
    | cons e' es' =>
      obtain rfl : e = e' := hs.1.symm.trans hs'.1
      have hrest := ih hs.2.2 hs'.2.2 (fun hmem => hh (List.mem_cons_of_mem _ hmem))
        fun hmem => hh' (List.mem_cons_of_mem _ hmem)
      rw [hrest]

omit [DecidableEq A] in
/-- The links determine the list of a head. -/
theorem Circle.unique (hc : l.Circle h es) (hc' : l.Circle h es') : es = es' :=
  hc.closed.unique hc'.closed (List.nodup_cons.mp hc.nodup).1 (List.nodup_cons.mp hc'.nodup).1

/-! ## What the operations make of a circle -/

theorem initializeListHead_circle (h : A) (l : Links A) : (l.initializeListHead h).Circle h [] := by
  refine ⟨⟨?_, ?_⟩, List.nodup_singleton h⟩
  · simp [initializeListHead]
  · simp [initializeListHead]

theorem initializeListHead_same {u : A} (hu : u ≠ h) : l.Same (l.initializeListHead h) u := by
  constructor
  · simp [initializeListHead, hu]
  · simp [initializeListHead, hu]

theorem Circle.isListEmpty (hc : l.Circle h es) : l.isListEmpty h = es.isEmpty := by
  cases es with
  | nil => simp [Links.isListEmpty, hc.closed.1]
  | cons e es =>
    have hne : e ≠ h := by
      rintro rfl
      exact (List.nodup_cons.mp hc.nodup).1 List.mem_cons_self
    simp [Links.isListEmpty, hc.closed.1, hne]

theorem Circle.insertTailList (hc : l.Circle h es) (he : e ∉ h :: es) :
    (l.insertTailList h e).Circle h (es ++ [e]) := by
  have hlast := hc.closed.blink_mem
  have hne : l.blink h ≠ e := fun heq => he (heq ▸ hlast)
  have hhe : h ≠ e := fun heq => he (heq ▸ List.mem_cons_self)
  refine ⟨?_, ?_⟩
  · rw [segment_append]
    constructor
    · apply hc.closed.retarget hc.nodup
      · intro u hu hul
        have hue : u ≠ e := fun heq => he (heq ▸ hu)
        simp [Links.insertTailList, hul, hue]
      · intro u hu
        have hue : u ≠ e := fun heq => he (heq ▸ List.mem_cons_of_mem _ hu)
        have huh : u ≠ h := fun heq => (List.nodup_cons.mp hc.nodup).1 (heq ▸ hu)
        simp [Links.insertTailList, hue, huh]
      · simp [Links.insertTailList]
      · simp [Links.insertTailList, hhe.symm]
    · constructor
      · simp [Links.insertTailList, hne.symm]
      · simp [Links.insertTailList]
  · rw [← List.cons_append]
    exact List.nodup_append.mpr ⟨hc.nodup, List.nodup_singleton e, fun u hu v hv huv =>
      he (List.mem_singleton.mp hv ▸ huv ▸ hu)⟩

theorem Circle.insertTailList_same (hc : l.Circle h es) {u : A} (hu : u ∉ h :: es) (hue : u ≠ e) :
    l.Same (l.insertTailList h e) u := by
  have hlast : u ≠ l.blink h := fun heq => hu (heq ▸ hc.closed.blink_mem)
  have huh : u ≠ h := fun heq => hu (heq ▸ List.mem_cons_self)
  constructor
  · simp [Links.insertTailList, hue, hlast]
  · simp [Links.insertTailList, hue, huh]

theorem Circle.removeEntryList (hc : l.Circle h (es ++ e :: es')) :
    (l.removeEntryList e).Circle h (es ++ es') := by
  obtain ⟨hbefore, hafter⟩ := segment_append.mp hc.closed
  have hnodup : ((h :: es) ++ e :: es').Nodup := hc.nodup
  obtain ⟨hfront, hback, hdisj⟩ := List.nodup_append.mp hnodup
  have he : e ∉ h :: es := fun hmem => hdisj e hmem e List.mem_cons_self rfl
  have hlast := hbefore.blink_mem
  have hless : ((h :: es) ++ es').Sublist ((h :: es) ++ e :: es') :=
    (List.sublist_cons_self e es').append_left _
  refine ⟨?_, hnodup.sublist hless⟩
  cases es' with
  | nil =>
    rw [List.append_nil]
    apply hbefore.retarget hfront
    · intro u hu hul
      simp [Links.removeEntryList, hul]
    · intro u hu
      have huh : u ≠ h := fun heq => (List.nodup_cons.mp hfront).1 (heq ▸ hu)
      simp [Links.removeEntryList, hafter.1, huh]
    · simp [Links.removeEntryList, hafter.1]
    · simp [Links.removeEntryList, hafter.1]
  | cons f es' =>
    obtain ⟨hflink, hblink, hrest⟩ := hafter
    have hfe : f ≠ e := fun heq => (List.nodup_cons.mp hback).1 (heq ▸ List.mem_cons_self)
    rw [segment_append]
    constructor
    · apply hbefore.retarget hfront
      · intro u hu hul
        simp [Links.removeEntryList, hul]
      · intro u hu
        have huf : u ≠ f := fun heq =>
          hdisj u (List.mem_cons_of_mem _ hu) f (List.mem_cons_of_mem _ List.mem_cons_self) heq
        simp [Links.removeEntryList, hflink, huf]
      · simp [Links.removeEntryList, hflink]
      · simp [Links.removeEntryList, hflink]
    · apply hrest.congr
      · intro u hu
        have hul : u ≠ l.blink e := fun heq =>
          hdisj (l.blink e) hlast u (List.mem_cons_of_mem _ hu) heq.symm
        simp [Links.removeEntryList, hul]
      · intro u hu
        have huf : u ≠ f := by
          rintro rfl
          rcases List.mem_append.mp hu with hu | hu
          · exact (List.nodup_cons.mp (List.nodup_cons.mp hback).2).1 hu
          · rw [List.mem_singleton.mp hu] at hdisj
            exact hdisj h List.mem_cons_self h (List.mem_cons_of_mem _ List.mem_cons_self) rfl
        simp [Links.removeEntryList, hflink, huf]

omit [DecidableEq A] in
/-- The neighbours of an entry are on its circle. -/
theorem Circle.neighbours (hc : l.Circle h (es ++ e :: es')) :
    l.flink e ∈ h :: (es ++ e :: es') ∧ l.blink e ∈ h :: (es ++ e :: es') := by
  obtain ⟨hbefore, hafter⟩ := segment_append.mp hc.closed
  constructor
  · cases es' with
    | nil => exact hafter.1 ▸ List.mem_cons_self
    | cons f es' => simp [hafter.1]
  · rcases List.mem_cons.mp hbefore.blink_mem with hh | hmem
    · exact hh ▸ List.mem_cons_self
    · exact List.mem_cons_of_mem _ (List.mem_append_left _ hmem)

theorem Circle.removeEntryList_same (hc : l.Circle h (es ++ e :: es')) {u : A}
    (hu : u ∉ h :: (es ++ e :: es')) : l.Same (l.removeEntryList e) u := by
  obtain ⟨hflink, hblink⟩ := hc.neighbours
  have hf : u ≠ l.flink e := fun heq => hu (heq ▸ hflink)
  have hb : u ≠ l.blink e := fun heq => hu (heq ▸ hblink)
  constructor
  · simp [Links.removeEntryList, hb]
  · simp [Links.removeEntryList, hf]

/-- `RemoveHeadList` removes the first entry. -/
theorem Circle.removeHeadList (hc : l.Circle h (e :: es)) :
    l.removeHeadList h = (e, l.removeEntryList e) := by
  obtain ⟨hfirst, hback, -⟩ := hc.closed
  unfold Links.removeHeadList Links.removeEntryList
  rw [hfirst, hback]

/-- The copied head takes the entries over. -/
theorem Circle.splice (hc : l.Circle h es) (hes : es ≠ []) (hh' : h' ∉ h :: es) :
    (l.splice h h').Circle h' es := by
  have hlast := hc.closed.blink_mem
  have hhh' : h' ≠ h := fun heq => hh' (heq ▸ List.mem_cons_self)
  have hlh' : l.blink h ≠ h' := fun heq => hh' (heq ▸ hlast)
  have hnodup : (h' :: es).Nodup :=
    List.nodup_cons.mpr ⟨fun hmem => hh' (List.mem_cons_of_mem _ hmem), (List.nodup_cons.mp hc.nodup).2⟩
  refine ⟨?_, hnodup⟩
  cases es with
  | nil => exact absurd rfl hes
  | cons e es =>
    obtain ⟨hfirst, hback, hrest⟩ := hc.closed
    have hnot : ∀ u ∈ e :: es, u ≠ h := by
      rintro u hu rfl
      exact (List.nodup_cons.mp hc.nodup).1 hu
    have hnot' : ∀ u ∈ e :: es, u ≠ h' := by
      rintro u hu rfl
      exact (List.nodup_cons.mp hnodup).1 hu
    have hh'e : h' ≠ e := Ne.symm (hnot' e List.mem_cons_self)
    have hlh : l.blink h ≠ h := hnot _ hrest.blink_mem
    refine ⟨?_, ?_, ?_⟩
    · simp [Links.splice, initializeListHead, hfirst, hhh', Ne.symm hlh']
    · simp [Links.splice, initializeListHead, hfirst, hnot e List.mem_cons_self]
    · apply hrest.retarget (List.nodup_cons.mp hnodup).2
      · intro u hu hul
        simp [Links.splice, initializeListHead, hnot u hu, hnot' u hu, hul, hfirst, hh'e]
      · intro u hu
        have hue : u ≠ e := by
          rintro rfl
          exact (List.nodup_cons.mp (List.nodup_cons.mp hnodup).2).1 hu
        have humem : u ∈ e :: es := List.mem_cons_of_mem _ hu
        simp [Links.splice, initializeListHead, hnot u humem, hnot' u humem, hfirst, hue]
      · simp [Links.splice, initializeListHead, hlh, hfirst, hh'e]
      · simp [Links.splice, initializeListHead, hhh', hfirst, hh'e]

theorem Circle.splice_same (hc : l.Circle h es) (hes : es ≠ []) (hh' : h' ∉ h :: es) {u : A}
    (hu : u ∉ h :: es) (hu' : u ≠ h') : l.Same (l.splice h h') u := by
  have huh : u ≠ h := fun heq => hu (heq ▸ List.mem_cons_self)
  have hlast : u ≠ l.blink h := fun heq => hu (heq ▸ hc.closed.blink_mem)
  cases es with
  | nil => exact absurd rfl hes
  | cons e es =>
    have hue : u ≠ e := fun heq => hu (by simp [heq])
    have hh'e : h' ≠ e := fun heq => hh' (by simp [heq])
    constructor
    · simp [Links.splice, initializeListHead, hc.closed.1, huh, hu', hlast, hh'e]
    · simp [Links.splice, initializeListHead, hc.closed.1, huh, hu', hue]

/-! ## Several lists in one memory -/

/-- One list for each index, none with a node of another. -/
structure Family {ι : Type} (l : Links A) (head : ι → A) (lists : ι → List A) : Prop where
  circle : ∀ i, l.Circle (head i) (lists i)
  apart : ∀ i j, i ≠ j → ∀ u ∈ head i :: lists i, u ∉ head j :: lists j

section Family

variable {ι : Type} {head : ι → A} {lists lists' : ι → List A} {i j : ι}

omit [DecidableEq A] in
/-- Links changed on one list only, which keeps to its nodes and to fresh ones. -/
theorem Family.change (hl : l.Family head lists) (hother : ∀ j, j ≠ i → lists' j = lists j)
    (hc : l'.Circle (head i) (lists' i))
    (hsame : ∀ u, u ∉ head i :: lists i → u ∉ lists' i → l.Same l' u)
    (hfrom : ∀ u ∈ lists' i, u ∈ lists i ∨ ∀ j, u ∉ head j :: lists j) : l'.Family head lists' := by
  have hclear : ∀ j, j ≠ i → ∀ u ∈ head j :: lists j, u ∉ head i :: lists' i := by
    intro j hj u hu hui
    rcases List.mem_cons.mp hui with rfl | hui
    · exact hl.apart j i hj _ hu List.mem_cons_self
    · rcases hfrom u hui with hold | hfresh
      · exact hl.apart j i hj u hu (List.mem_cons_of_mem _ hold)
      · exact hfresh j hu
  refine ⟨fun j => ?_, fun j k hjk u hu => ?_⟩
  · by_cases hj : j = i
    · subst hj
      exact hc
    · rw [hother j hj]
      apply (hl.circle j).congr
      intro u hu
      have hui := hclear j hj u hu
      exact hsame u (hl.apart j i hj u hu) fun hmem => hui (List.mem_cons_of_mem _ hmem)
  · by_cases hj : j = i
    · subst hj
      rw [hother k hjk.symm]
      exact fun hk => hclear k hjk.symm u hk hu
    · rw [hother j hj] at hu
      by_cases hk : k = i
      · subst hk
        exact hclear j hj u hu
      · rw [hother k hk]
        exact hl.apart j k hjk u hu

omit [DecidableEq A] in
/-- A head is on no list. -/
theorem Family.head_not_mem (hl : l.Family head lists) (i j : ι) : head i ∉ lists j := by
  intro hmem
  by_cases hij : i = j
  · subst hij
    exact (List.nodup_cons.mp (hl.circle i).nodup).1 hmem
  · exact hl.apart i j hij _ List.mem_cons_self (List.mem_cons_of_mem _ hmem)

theorem Family.initializeListHead (hl : l.Family head lists) (hi : lists i = []) :
    (l.initializeListHead (head i)).Family head lists := by
  apply hl.change (i := i) (fun _ _ => rfl)
  · rw [hi]
    exact initializeListHead_circle _ l
  · intro u hu _
    exact initializeListHead_same fun heq => hu (heq ▸ List.mem_cons_self)
  · exact fun u hu => .inl hu

theorem Family.insertTailList (hl : l.Family head lists) (hfresh : ∀ j, e ∉ head j :: lists j)
    (hother : ∀ j, j ≠ i → lists' j = lists j) (hi : lists' i = lists i ++ [e]) :
    (l.insertTailList (head i) e).Family head lists' := by
  apply hl.change hother
  · rw [hi]
    exact (hl.circle i).insertTailList (hfresh i)
  · intro u hu hu'
    have hue : u ≠ e := by
      rintro rfl
      exact hu' (by simp [hi])
    exact (hl.circle i).insertTailList_same hu hue
  · intro u hu
    rw [hi] at hu
    rcases List.mem_append.mp hu with hu | hu
    · exact .inl hu
    · rw [List.mem_singleton.mp hu]
      exact .inr hfresh

theorem Family.removeEntryList (hl : l.Family head lists) (hi : lists i = es ++ e :: es')
    (hother : ∀ j, j ≠ i → lists' j = lists j) (hi' : lists' i = es ++ es') :
    (l.removeEntryList e).Family head lists' := by
  have hc := hl.circle i
  rw [hi] at hc
  apply hl.change hother
  · rw [hi']
    exact hc.removeEntryList
  · intro u hu _
    rw [hi] at hu
    exact hc.removeEntryList_same hu
  · intro u hu
    rw [hi'] at hu
    rw [hi]
    left
    rcases List.mem_append.mp hu with hu | hu
    · exact List.mem_append_left _ hu
    · exact List.mem_append_right _ (List.mem_cons_of_mem _ hu)

omit [DecidableEq A] in
/-- A removed entry is on no list. -/
theorem Family.removed (hl : l.Family head lists) (hi : lists i = es ++ e :: es')
    (hother : ∀ j, j ≠ i → lists' j = lists j) (hi' : lists' i = es ++ es') (j : ι) :
    e ∉ head j :: lists' j := by
  by_cases hj : j = i
  · subst hj
    have hnodup := (hl.circle j).nodup
    rw [hi, ← List.cons_append] at hnodup
    obtain ⟨-, hback, hdisj⟩ := List.nodup_append.mp hnodup
    rw [hi', ← List.cons_append, List.mem_append]
    rintro (hmem | hmem)
    · exact hdisj e hmem e List.mem_cons_self rfl
    · exact (List.nodup_cons.mp hback).1 hmem
  · rw [hother j hj]
    apply hl.apart i j (Ne.symm hj)
    simp [hi]

/-! ## Searching a list, and moving entries -/

/-- The search ends at the first entry that passes, or at none. -/
theorem searchFrom_segment {test : A → Bool} (hs : l.Segment x es h) (hh : h ∉ es) {rounds : Nat}
    (hr : es.length < rounds) : searchFrom h test l rounds (l.flink x) = some (es.find? test) := by
  induction es generalizing x rounds with
  | nil =>
    cases rounds with
    | zero => exact absurd hr (by simp)
    | succ rounds => simp [searchFrom, hs.1]
  | cons e es ih =>
    obtain ⟨hfirst, -, hrest⟩ := hs
    obtain ⟨hne, hh⟩ := not_or.mp (List.mem_cons.not.mp hh)
    cases rounds with
    | zero => exact absurd hr (by simp)
    | succ rounds =>
      unfold searchFrom
      rw [hfirst, if_neg (Ne.symm hne), List.find?_cons]
      by_cases ht : test e = true
      · simp [ht]
      · simp only [ht, if_false, Bool.false_eq_true]
        exact ih hrest hh (by simpa using hr)

theorem Circle.search (hc : l.Circle h es) (test : A → Bool) {rounds : Nat} (hr : es.length < rounds) :
    searchFrom h test l rounds (l.flink h) = some (es.find? test) :=
  searchFrom_segment hc.closed (List.nodup_cons.mp hc.nodup).1 hr

omit [DecidableEq A] in
/-- Where the walk goes after an entry. -/
theorem Circle.following (hc : l.Circle h (es ++ e :: es')) :
    l.flink e = (es' ++ [h]).head (by simp) :=
  (segment_append.mp hc.closed).2.flink_eq

/-- The walk moves the entries that pass, in their order, and leaves the others in theirs. -/
theorem Family.moveFrom {test : A → Bool} (hij : i ≠ j) (pre rest : List A) {rounds : Nat}
    (hl : l.Family head lists) (hi : lists i = pre ++ rest) (hr : rest.length < rounds)
    (hother : ∀ k, k ≠ i → k ≠ j → lists' k = lists k)
    (hi' : lists' i = pre ++ rest.filter fun u => !test u)
    (hj' : lists' j = lists j ++ rest.filter test) :
    ∃ l', moveFrom (head i) (head j) test rounds ((rest ++ [head i]).head (by simp)) l = some l' ∧
      l'.Family head lists' := by
  classical
  induction rest generalizing pre l lists rounds with
  | nil =>
    cases rounds with
    | zero => exact absurd hr (by simp)
    | succ rounds =>
      refine ⟨l, by simp [Links.moveFrom], ?_⟩
      have hsame : lists' = lists := by
        funext k
        by_cases hk : k = i
        · subst hk
          simpa [hi] using hi'
        · by_cases hk' : k = j
          · subst hk'
            simpa using hj'
          · exact hother k hk hk'
      rw [hsame]
      exact hl
  | cons e rest ih =>
    have hne : e ≠ head i := by
      rintro rfl
      exact (List.nodup_cons.mp (hl.circle i).nodup).1 (by simp [hi])
    have hc := hl.circle i
    rw [hi] at hc
    cases rounds with
    | zero => exact absurd hr (by simp)
    | succ rounds =>
      simp only [List.cons_append, List.head_cons]
      unfold Links.moveFrom
      rw [if_neg hne]
      simp only [hc.following]
      have hr' : rest.length < rounds := by simpa using hr
      by_cases ht : test e = true
      · rw [if_pos ht]
        -- off the one list, then onto the other
        let off := Function.update lists i (pre ++ rest)
        let on := Function.update off j (off j ++ [e])
        have hoff : ∀ k, k ≠ i → off k = lists k := fun k hk => Function.update_of_ne hk ..
        have hoffi : off i = pre ++ rest := Function.update_self ..
        have hon : ∀ k, k ≠ j → on k = off k := fun k hk => Function.update_of_ne hk ..
        have honj : on j = off j ++ [e] := Function.update_self ..
        have hlon := (hl.removeEntryList hi hoff hoffi).insertTailList (hl.removed hi hoff hoffi) hon honj
        apply ih pre hlon ((hon i hij).trans hoffi) hr'
        · intro k hk hk'
          rw [hon k hk', hoff k hk]
          exact hother k hk hk'
        · simpa [ht] using hi'
        · rw [honj, hoff j hij.symm]
          simpa [ht] using hj'
      · rw [if_neg ht]
        apply ih (pre ++ [e]) hl (by simp [hi]) hr' hother
        · simpa [ht] using hi'
        · simpa [ht] using hj'

/-- The splice moves a whole list that is not empty. -/
theorem Family.splice (hij : i ≠ j) (hl : l.Family head lists) (hi : lists i ≠ []) (hj : lists j = [])
    (hother : ∀ k, k ≠ i → k ≠ j → lists' k = lists k) (hi' : lists' i = []) (hj' : lists' j = lists i) :
    (l.splice (head i) (head j)).Family head lists' := by
  classical
  have hhead : head j ∉ head i :: lists i := fun hmem => hl.apart i j hij _ hmem List.mem_cons_self
  -- the two lists have changed places
  have hswap : ∀ k, lists' k = lists (Equiv.swap i j k) := by
    intro k
    rw [Equiv.swap_apply_def]
    split
    · subst k
      rw [hi', hj]
    · split
      · subst k
        exact hj'
      · exact hother k ‹_› ‹_›
  refine ⟨fun k => ?_, fun k k' hk u hu hu' => ?_⟩
  · by_cases hki : k = i
    · subst hki
      rw [hi']
      exact initializeListHead_circle _ _
    · by_cases hkj : k = j
      · subst hkj
        rw [hj']
        exact (hl.circle i).splice hi hhead
      · rw [hother k hki hkj]
        apply (hl.circle k).congr
        intro u hu
        exact (hl.circle i).splice_same hi hhead (hl.apart k i hki u hu)
          fun heq => hl.apart k j hkj u hu (heq ▸ List.mem_cons_self)
  · rw [hswap] at hu hu'
    rcases List.mem_cons.mp hu with rfl | hu
    · rcases List.mem_cons.mp hu' with heq | hu'
      · exact hl.apart k k' hk _ List.mem_cons_self (heq ▸ List.mem_cons_self)
      · exact hl.head_not_mem _ _ hu'
    · rcases List.mem_cons.mp hu' with rfl | hu'
      · exact hl.head_not_mem _ _ hu
      · exact hl.apart _ _ ((Equiv.swap i j).injective.ne hk) u (List.mem_cons_of_mem _ hu)
          (List.mem_cons_of_mem _ hu')

end Family

end Links

end TtWind
