import TtWind.Driver.Lists
import TtWind.Laws.Custody
import TtWind.Laws.Revocation

/-!
# Mapping records are destroyed exactly once

The ledger of a run: the memory the lists lie in, the inserted records by number with those
destroyed, and the references taken on processes and not dropped. In every reachable configuration
the mapping list is a circle through the records listed, every inserted record is on it, with one
thread, or destroyed, and the references are those of the records.
-/

set_option autoImplicit false

namespace TtWind

open TtWind.Effect TtWind.Effect.Prog

/-- The records ever inserted, numbered in that order: the number of the record at an address, and
the numbers of those whose block was freed. -/
structure Births where
  born : Nat := 0
  number : Nat → Option Nat := fun _ => none
  destroyed : List Nat := []

namespace Births

def insert (b : Births) (a : Nat) : Births :=
  { b with born := b.born + 1, number := Function.update b.number a (some b.born) }

/-- A block that is freed with a record destroys it, however often. -/
def free (b : Births) (a : Nat) : Births :=
  { b with destroyed := (b.number a).toList ++ b.destroyed }

def note (b : Births) : (o : Op) → o.Ans → Births
  | .allocPool, some a => { b with number := Function.update b.number a none }
  | .locked (.insertMapping m), true => b.insert m.addr
  | .locked (.appendMapping m), _ => b.insert m.addr
  | .freePool a, _ => b.free a
  | _, _ => b

end Births

/-- The references held, by record: one is added for the record a thread has in hand, and one is
dropped. -/
def noteReference (held : Option Nat) (refs : List (Nat × Process)) : Op → List (Nat × Process)
  | .referenceProcess p => (held.map fun a => (a, p)).toList ++ refs
  | .dereferenceProcess p => (held.map fun a => refs.erase (a, p)).getD refs
  | _ => refs

/-- What is kept of a run. `memory` is lost when the lists are not as the code takes them to be. -/
structure Ledger where
  memory : Option ListMemory := some {}
  births : Births := {}
  references : List (Nat × Process) := []

/-- The ledger as an observer. -/
def ledger : Observer DriverSig Tid World Ledger where
  initial _ g := g = {}
  note t o x _ g := {
    memory := g.memory.bind (·.note t o x)
    births := g.births.note o x
    references := noteReference (g.memory.bind (·.held t)) g.references o }

namespace Op.sparesRecords

variable {o : Op} (h : o.sparesRecords) (x : o.Ans)
include h

theorem births (b : Births) : b.note o x = b := by
  cases o with
  | locked s => cases s <;> first | rfl | exact (h : False).elim
  | allocPool => exact h.elim
  | freePool a => exact h.elim
  | _ => rfl

theorem memory (t : Tid) (mem : ListMemory) : mem.note t o x = some mem := by
  cases o with
  | locked s => cases s <;> first | rfl | exact (h : False).elim
  | allocPool => exact h.elim
  | freePool a => exact h.elim
  | currentProcess => exact h.elim
  | _ => rfl

omit x in
theorem references (held : Option Nat) (refs : List (Nat × Process)) : noteReference held refs o = refs := by
  cases o with
  | referenceProcess p => exact h.elim
  | dereferenceProcess p => exact h.elim
  | _ => rfl

end Op.sparesRecords

/-! ## Numbers -/

/-- The records in the blocks in use have numbers of their own, none of them destroyed, and every
number is of one of them or destroyed. -/
structure Births.Kept (b : Births) (pool : Nat → Option Place) : Prop where
  numbered : ∀ a, pool a ≠ none → (b.number a = none ↔ ∃ t, pool a = some (.building t))
  alive : ∀ a n, pool a ≠ none → b.number a = some n → n < b.born ∧ n ∉ b.destroyed
  inj : ∀ a a' n, pool a ≠ none → pool a' ≠ none → b.number a = some n → b.number a' = some n → a = a'
  found : ∀ n, n < b.born → n ∈ b.destroyed ∨ ∃ a, pool a ≠ none ∧ b.number a = some n
  nodup : b.destroyed.Nodup
  dead : ∀ n ∈ b.destroyed, n < b.born

section Births

variable {b : Births} {pool pool' : Nat → Option Place}

theorem Births.Kept.congr (h : b.Kept pool) (hnone : ∀ a, pool' a = none ↔ pool a = none)
    (hbuilding : ∀ a t, pool' a = some (.building t) ↔ pool a = some (.building t)) : b.Kept pool' where
  numbered a ha := by
    simp only [hbuilding]
    exact h.numbered a ((hnone a).not.mp ha)
  alive a n ha := h.alive a n ((hnone a).not.mp ha)
  inj a a' n ha ha' := h.inj a a' n ((hnone a).not.mp ha) ((hnone a').not.mp ha')
  found n hn := (h.found n hn).imp_right fun ⟨a, ha, hnum⟩ => ⟨a, (hnone a).not.mpr ha, hnum⟩
  nodup := h.nodup
  dead := h.dead

theorem Births.Kept.alloc (h : b.Kept pool) {a : Nat} (ha : pool a = none) (t : Tid) :
    Births.Kept { b with number := Function.update b.number a none }
      (Function.update pool a (some (.building t))) := by
  constructor <;> simp only [Function.update_apply]
  · have := h.numbered
    grind
  · have := h.alive
    grind
  · have := h.inj
    grind
  · have := h.found
    grind
  · exact h.nodup
  · exact h.dead

theorem Births.Kept.insert (h : b.Kept pool) {a : Nat} {t : Tid} (ha : pool a = some (.building t)) :
    (b.insert a).Kept (Function.update pool a (some .listed)) := by
  have hnone : b.number a = none := (h.numbered a (by simp [ha])).mpr ⟨t, ha⟩
  constructor <;> simp only [Births.insert, Function.update_apply]
  · have := h.numbered
    grind
  · have := h.alive
    have := h.dead
    grind
  · have := h.inj
    have := h.alive
    grind
  · have := h.found
    grind
  · exact h.nodup
  · intro n hn
    exact Nat.lt_succ_of_lt (h.dead n hn)

theorem Births.Kept.free (h : b.Kept pool) {a : Nat} (ha : pool a ≠ none) :
    (b.free a).Kept (Function.update pool a none) := by
  cases hnum : b.number a with
  | none =>
    constructor <;> simp only [Births.free, hnum, Option.toList_none, List.nil_append, Function.update_apply]
    · have := h.numbered
      grind
    · have := h.alive
      grind
    · have := h.inj
      grind
    · have := h.found
      grind
    · exact h.nodup
    · exact h.dead
  | some n =>
    obtain ⟨hn, halive⟩ := h.alive a n ha hnum
    constructor <;> simp only [Births.free, hnum, Option.toList_some, List.singleton_append, Function.update_apply]
    · have := h.numbered
      grind
    · have := h.alive
      have := h.inj
      grind
    · have := h.inj
      grind
    · have := h.found
      grind
    · exact List.nodup_cons.mpr ⟨halive, h.nodup⟩
    · have := h.dead
      grind

/-- An operation keeps the numbers. -/
theorem Handling.births {t : Tid} {s s' : Custody} {o : Op} {x : o.Ans} (h : Handling t s o x s')
    (hs : s.Sound) (hb : b.Kept s.pool) : (b.note o x).Kept s'.pool := by
  have hhand : ∀ {h : InHand} {ms : List UserMapping}, s.work t = ⟨some h, ms⟩ →
      s.pool h.addr = some (placeOf (some t) h) := fun hk =>
    hs.placed (some t) _ (by simp [Custody.items, hk])
  have hdetach : ∀ {moved kept : List UserMapping} {k : Work}, moved ⊆ s.list →
      b.Kept (s.detach t k kept moved).pool := by
    intro moved kept k hsub
    have hlisted : ∀ a, moved.any (·.addr == a) = true → s.pool a = some .listed := by
      intro a ha
      obtain ⟨m, hm, hma⟩ := List.any_eq_true.mp ha
      obtain rfl := beq_iff_eq.mp hma
      exact hs.placed none m.inHand (List.mem_map_of_mem (hsub hm))
    apply hb.congr
    · intro a
      show (if _ then _ else _) = none ↔ _
      split
      · simp [hlisted a ‹_›]
      · rfl
    · intro a u
      show (if _ then _ else _) = some (Place.building u) ↔ _
      split
      · simp [hlisted a ‹_›]
      · rfl
  cases h with
  | spares x ho =>
    rw [ho.births]
    exact hb
  | noBlock => exact hb
  | notInserted => exact hb
  | notFound => exact hb
  | alloc a hk hnone => exact hb.alloc hnone t
  | reference p a hk => exact hb
  | dereference p a i ms hk => exact hb
  | free a i ms hk =>
    apply hb.free
    rw [hhand hk]
    intro h
    cases h
  | insert m hk => exact hb.insert (hhand hk)
  | append m hk => exact hb.insert (hhand hk)
  | take fo va m hk hfound =>
    apply hdetach
    rintro _ hm
    rw [List.mem_singleton.mp hm]
    exact List.mem_of_find?_eq_some hfound
  | sweepFile fo hk => exact hdetach (List.filter_subset_self _)
  | sweepAll hk => exact hdetach (List.Subset.refl _)
  | turn p hk => exact hb

end Births

/-! ## References -/

/-- The references are those of the records that hold one, and the counts are theirs. -/
structure Custody.Tallied (s : Custody) (refs : List (Nat × Process)) : Prop where
  mem : ∀ a p, (a, p) ∈ refs ↔ Labelled InHand.addr InHand.process s.items a p
  nodup : (refs.map Prod.fst).Nodup
  count : ∀ p, s.refs p = (refs.countP (·.2 == p) : Nat)

section References

variable {s s' : Custody} {t : Tid} {refs : List (Nat × Process)}

theorem Custody.Tallied.congr (h : s.Tallied refs) (hrefs : s'.refs = s.refs)
    (hlabels : ∀ a p, Labelled InHand.addr InHand.process s'.items a p ↔
      Labelled InHand.addr InHand.process s.items a p) : s'.Tallied refs where
  mem a p := (h.mem a p).trans (hlabels a p).symm
  nodup := h.nodup
  count p := by
    rw [hrefs]
    exact h.count p

theorem give_self (s : Custody) (t : Tid) : s.give t (s.work t) = s := by
  simp [Custody.give]

theorem give_give (s : Custody) (t : Tid) (k k' : Work) : (s.give t k).give t k' = s.give t k' := by
  simp [Custody.give]

/-- The record in hand, and all others. -/
theorem labelled_hand {h : InHand} {ms : List UserMapping} (hk : s.work t = ⟨some h, ms⟩) (a : Nat)
    (p : Process) : Labelled InHand.addr InHand.process s.items a p ↔
      (h.addr = a ∧ h.process = some p) ∨
        Labelled InHand.addr InHand.process (s.give t ⟨none, ms⟩).items a p := by
  apply labelled_put (i := some t)
  · simp [Custody.items, hk]
  · exact fun i hi => (Custody.give_items_ne s _ i hi).symm

theorem labelled_give (h : InHand) (ms : List UserMapping) (a : Nat) (p : Process) :
    Labelled InHand.addr InHand.process (s.give t ⟨some h, ms⟩).items a p ↔
      (h.addr = a ∧ h.process = some p) ∨
        Labelled InHand.addr InHand.process (s.give t ⟨none, ms⟩).items a p := by
  have hlabels := labelled_hand (s := s.give t ⟨some h, ms⟩) (Custody.give_work_self ..) a p
  rwa [give_give] at hlabels

/-- No other record has the address of the one in hand. -/
theorem not_labelled_hand {h : InHand} {ms : List UserMapping} (hs : s.Sound) (hk : s.work t = ⟨some h, ms⟩)
    (p : Process) : ¬ Labelled InHand.addr InHand.process (s.give t ⟨none, ms⟩).items h.addr p := by
  have hdrop : Allotted InHand.addr placeOf (s.give t ⟨none, ms⟩).items (Function.update s.pool h.addr none) := by
    apply Allotted.drop placeOf_holder hs (i := some t)
    · simp [Custody.items, hk]
    · exact Custody.give_items_ne s _
  rintro ⟨i, y, hy, hya, -⟩
  have hplaced := hdrop.placed i y hy
  rw [hya, Function.update_self] at hplaced
  cases hplaced

/-- A reference is taken for the record in hand. -/
theorem Custody.Tallied.reference {p : Process} {a : Nat} (h : s.Tallied refs) (hs : s.Sound)
    (hk : s.work t = { held := some { addr := a } }) :
    Custody.Tallied { s.give t { held := some ⟨a, some p, false⟩ } with
      refs := Function.update s.refs p (s.refs p + 1) } ((a, p) :: refs) := by
  have hmem : ∀ a' q, (a', q) ∈ refs ↔
      Labelled InHand.addr InHand.process (s.give t ⟨none, []⟩).items a' q := by
    intro a' q
    rw [h.mem, labelled_hand hk]
    simp
  refine ⟨fun a' q => ?_, ?_, fun q => ?_⟩
  · show _ ↔ Labelled InHand.addr InHand.process (s.give t ⟨some ⟨a, some p, false⟩, []⟩).items a' q
    rw [labelled_give, List.mem_cons, hmem, Prod.mk.injEq]
    simp [eq_comm]
  · rw [List.map_cons, List.nodup_cons]
    refine ⟨fun hin => ?_, h.nodup⟩
    obtain ⟨⟨a', q⟩, hq, rfl⟩ := List.mem_map.mp hin
    exact not_labelled_hand hs hk q ((hmem _ q).mp hq)
  · have hcount := h.count q
    by_cases hq : q = p
    · subst hq
      simp [hcount]
    · simp [hcount, hq, Ne.symm hq]

/-- The reference of the record in hand is dropped. -/
theorem Custody.Tallied.dereference {p : Process} {a : Nat} {i : Bool} {ms : List UserMapping}
    (h : s.Tallied refs) (hs : s.Sound) (hk : s.work t = ⟨some ⟨a, some p, i⟩, ms⟩) :
    Custody.Tallied { s.give t ⟨some ⟨a, none, i⟩, ms⟩ with
      refs := Function.update s.refs p (s.refs p - 1) } (refs.erase (a, p)) := by
  have hmem : ∀ a' q, (a', q) ∈ refs ↔ (a = a' ∧ p = q) ∨
      Labelled InHand.addr InHand.process (s.give t ⟨none, ms⟩).items a' q := by
    intro a' q
    rw [h.mem, labelled_hand hk]
    simp
  have hin : (a, p) ∈ refs := (hmem a p).mpr (.inl ⟨rfl, rfl⟩)
  have hnodup : refs.Nodup := h.nodup.of_map
  refine ⟨fun a' q => ?_, ?_, fun q => ?_⟩
  · show _ ↔ Labelled InHand.addr InHand.process (s.give t ⟨some ⟨a, none, i⟩, ms⟩).items a' q
    rw [labelled_give, hnodup.mem_erase_iff, hmem]
    have hnot := not_labelled_hand hs hk q
    constructor
    · rintro ⟨hne, ⟨rfl, rfl⟩ | hmid⟩
      · exact absurd rfl hne
      · exact .inr hmid
    · rintro (⟨-, hnone⟩ | hmid)
      · cases hnone
      · refine ⟨?_, .inr hmid⟩
        rintro heq
        obtain ⟨rfl, rfl⟩ := Prod.mk.inj heq
        exact hnot hmid
  · exact h.nodup.sublist ((List.erase_sublist).map _)
  · have hcount := h.count q
    have herase := (List.perm_cons_erase hin).countP_eq (·.2 == q)
    rw [List.countP_cons] at herase
    by_cases hq : q = p
    · subst hq
      simp only [beq_self_eq_true, if_true] at herase
      simp only [Function.update_self]
      omega
    · have hne : ¬ (p == q) = true := fun heq => hq (beq_iff_eq.mp heq).symm
      rw [if_neg hne, Nat.add_zero] at herase
      simp only [Function.update_of_ne hq]
      omega

/-- An operation keeps the references those of the records. -/
theorem Handling.references {o : Op} {x : o.Ans} (h : Handling t s o x s') (hs : s.Sound)
    (hr : s.Tallied refs) :
    s'.Tallied (noteReference ((s.work t).held.map InHand.addr) refs o) := by
  have hdetach : ∀ {moved kept : List UserMapping} {k : Work}, s.work t = {} →
      s.list.Perm (moved ++ kept) → k.items = moved.map UserMapping.inHand →
      (s.detach t k kept moved).Tallied refs := by
    intro moved kept k hk hlist hitems
    refine hr.congr ?_ ?_
    · rfl
    intro a p
    apply labelled_moveAll (moved.map UserMapping.inHand) id (i := none) (j := some t) (fun h => by cases h)
    · exact fun _ _ => ⟨rfl, rfl⟩
    · show (s.list.map UserMapping.inHand).Perm (moved.map UserMapping.inHand ++ kept.map UserMapping.inHand)
      rw [← List.map_append]
      exact hlist.map _
    · simp [Custody.items, Custody.detach, hitems, hk]
    · exact Custody.items_others rfl
  have hinsert : ∀ {m : UserMapping} {pool : Nat → Option Place},
      s.work t = { held := some ⟨m.addr, some m.process, false⟩ } →
      Custody.Tallied { s.give t {} with list := s.list ++ [m], pool } refs := by
    intro m pool hk
    refine hr.congr ?_ ?_
    · rfl
    intro a p
    apply labelled_moveAll [⟨m.addr, some m.process, false⟩] (fun _ => m.inHand) (i := some t) (j := none)
      (fun h => by cases h)
    · simp [UserMapping.inHand]
    · simp [Custody.items, hk]
    · simp only [Custody.items, List.map_append, List.map_cons, List.map_nil]
      exact List.perm_append_singleton ..
    · exact fun i hit hi => Custody.items_others (t := t) rfl i hi hit
  cases h with
  | spares x ho =>
    rw [ho.references]
    exact hr
  | noBlock => exact hr
  | notInserted => exact hr
  | notFound => exact hr
  | alloc a hk hnone =>
    refine hr.congr ?_ ?_
    · rfl
    intro b p
    show Labelled _ _ (s.give t ⟨some { addr := a }, []⟩).items b p ↔ _
    rw [labelled_give, ← hk, give_self]
    simp
  | reference p a hk =>
    rw [hk]
    exact hr.reference hs hk
  | dereference p a i ms hk =>
    rw [hk]
    exact hr.dereference hs hk
  | free a i ms hk =>
    refine hr.congr ?_ ?_
    · rfl
    intro b p
    rw [labelled_hand hk]
    simp only [reduceCtorEq, and_false, false_or]
    exact Iff.rfl
  | insert m hk => exact hinsert hk
  | append m hk => exact hinsert hk
  | take fo va m hk hfound =>
    obtain ⟨as, bs, hlist, herase⟩ := eraseP_of_find? hfound
    apply hdetach hk
    · rw [herase, hlist]
      exact List.perm_middle
    · rfl
  | sweepFile fo hk => exact hdetach hk (List.filter_append_perm _ _).symm rfl
  | sweepAll hk => exact hdetach hk (by simp) rfl
  | turn p hk =>
    refine hr.congr ?_ ?_
    · rfl
    intro a q
    rw [Custody.items_turn]

end References

/-! ## The lists in memory -/

/-- The head of a holder's list. -/
def ListNode.head : Option Tid → ListNode
  | none => .mappingList
  | some t => .toDestroy t

/-- The entries of each list: the mapping list, and the private list of a thread. -/
def Custody.entries (s : Custody) : Option Tid → List ListNode
  | none => s.list.map UserMapping.entry
  | some t => (s.work t).list.map UserMapping.entry

/-- The lists in memory are those of the records, and the records are written there. -/
structure Custody.Laid (s : Custody) (mem : ListMemory) : Prop where
  family : mem.links.Family ListNode.head s.entries
  held : ∀ t, mem.held t = (s.work t).held.map InHand.addr
  record : ∀ m ∈ s.list, mem.record m.addr = some m
  rounds : s.list.length ≤ mem.inserted

section Memory

variable {s s' : Custody} {t : Tid} {mem : ListMemory}

theorem Custody.mem_items_of_entry {i : Option Tid} {a : Nat} (h : ListNode.entry a ∈ s.entries i) :
    ∃ y ∈ s.items i, y.addr = a ∧ y.inserted = true := by
  cases i with
  | none =>
    obtain ⟨m, hm, heq⟩ := List.mem_map.mp h
    exact ⟨m.inHand, List.mem_map_of_mem hm, ListNode.entry.inj heq, rfl⟩
  | some t =>
    obtain ⟨m, hm, heq⟩ := List.mem_map.mp h
    exact ⟨m.inHand, List.mem_append_right _ (List.mem_map_of_mem hm), ListNode.entry.inj heq, rfl⟩

/-- The entry of a record under construction is on no list. -/
theorem Custody.Sound.fresh {h : InHand} {ms : List UserMapping} (hs : s.Sound)
    (hk : s.work t = ⟨some h, ms⟩) (hnew : h.inserted = false) (i : Option Tid) :
    ListNode.entry h.addr ∉ ListNode.head i :: s.entries i := by
  intro hmem
  rcases List.mem_cons.mp hmem with heq | hmem
  · cases i <;> cases heq
  · obtain ⟨y, hy, hya, hins⟩ := Custody.mem_items_of_entry hmem
    obtain ⟨-, rfl⟩ := hs.unique placeOf_holder hy
      (show h ∈ s.items (some t) by simp [Custody.items, hk]) hya
    rw [hnew] at hins
    cases hins

theorem Custody.entries_other {k : Work} (hwork : s'.work = Function.update s.work t k)
    (hlist : s'.list = s.list) : ∀ i, i ≠ some t → s'.entries i = s.entries i := by
  intro i hi
  cases i with
  | none => simp [Custody.entries, hlist]
  | some u =>
    have hut : u ≠ t := fun heq => hi (heq ▸ rfl)
    simp [Custody.entries, hwork, hut]

theorem Custody.Laid.test (h : s.Laid mem) (f : UserMapping → Bool) :
    ∀ m ∈ s.list, mem.test f m.entry = f m := by
  intro m hm
  simp [ListMemory.test, UserMapping.entry, ListNode.record, h.record m hm]

/-- The entries that pass are those of the records that do. -/
theorem filter_entries {ms : List UserMapping} {f : UserMapping → Bool} {g : ListNode → Bool}
    (hg : ∀ m ∈ ms, g m.entry = f m) :
    (ms.map UserMapping.entry).filter g = (ms.filter f).map UserMapping.entry := by
  rw [List.filter_map]
  exact congrArg _ (List.filter_congr hg)

theorem Custody.Laid.find (h : s.Laid mem) (f : UserMapping → Bool) :
    (s.list.map UserMapping.entry).find? (mem.test f) = (s.list.find? f).map UserMapping.entry := by
  rw [← List.head?_filter, filter_entries (h.test f), List.head?_map, List.head?_filter]

/-- A step that changes no list. -/
theorem Custody.Laid.hold (h : s.Laid mem) {k : Work} (hlist : k.list = (s.work t).list)
    (hwork : s'.work = Function.update s.work t k) (hsame : s'.list = s.list) :
    s'.Laid (mem.hold t (k.held.map InHand.addr)) := by
  have hentries : s'.entries = s.entries := by
    funext i
    by_cases hi : i = some t
    · subst hi
      simp [Custody.entries, hwork, hlist]
    · exact Custody.entries_other hwork hsame i hi
  refine ⟨hentries ▸ h.family, fun u => ?_, fun m hm => ?_, ?_⟩
  · rw [hwork]
    by_cases hu : u = t
    · subst hu
      simp [ListMemory.hold]
    · simp [ListMemory.hold, hu, h.held]
  · exact h.record m (hsame ▸ hm)
  · exact hsame ▸ h.rounds

/-- Inserting a record in memory. -/
theorem Custody.Laid.insert {m : UserMapping} {pool : Nat → Option Place} (h : s.Laid mem) (hs : s.Sound)
    (hk : s.work t = { held := some ⟨m.addr, some m.process, false⟩ }) :
    Custody.Laid { s.give t {} with list := s.list ++ [m], pool } (mem.insert t m) := by
  have hfresh := hs.fresh hk rfl
  refine ⟨?_, fun u => ?_, fun m' hm' => ?_, ?_⟩
  · apply h.family.insertTailList (i := none) hfresh
    · intro i hi
      cases i with
      | none => exact absurd rfl hi
      | some u =>
        by_cases hu : u = t
        · subst hu
          simp [Custody.entries, hk]
        · simp [Custody.entries, Custody.give, hu]
    · simp [Custody.entries, UserMapping.entry]
  · by_cases hu : u = t
    · subst hu
      simp [ListMemory.insert]
    · simp [ListMemory.insert, Custody.give, hu, h.held]
  · rcases List.mem_append.mp hm' with hm' | hm'
    · have hne : m'.addr ≠ m.addr := by
        intro heq
        apply hfresh none
        apply List.mem_cons_of_mem
        exact List.mem_map.mpr ⟨m', hm', congrArg ListNode.entry heq⟩
      simp [ListMemory.insert, hne, h.record m' hm']
    · obtain rfl := List.mem_singleton.mp hm'
      simp [ListMemory.insert]
  · have := h.rounds
    simp [ListMemory.insert, this]

/-- UNMAP_BAR finds in memory what it finds on the list. -/
theorem Custody.Laid.search (h : s.Laid mem) (f : UserMapping → Bool) :
    mem.links.searchFrom .mappingList (mem.test f) mem.rounds (mem.links.flink .mappingList) =
      some ((s.list.find? f).map UserMapping.entry) := by
  have hc : mem.links.Circle .mappingList (s.list.map UserMapping.entry) := h.family.circle none
  rw [hc.search, h.find]
  rw [List.length_map]
  exact Nat.lt_succ_of_le h.rounds

theorem Custody.Laid.take {fo : FileObject} {va : UInt64} {m : UserMapping} (h : s.Laid mem)
    (hk : s.work t = {}) (hfound : s.list.find? (Section.isMappingAt fo va) = some m) :
    ∃ mem', mem.take t fo va (some m) = some mem' ∧
      (s.detach t { held := some m.inHand } (s.list.eraseP (Section.isMappingAt fo va)) [m]).Laid mem' := by
  obtain ⟨as, bs, hlist, herase⟩ := eraseP_of_find? hfound
  refine ⟨({ mem with links := mem.links.removeEntryList m.entry }.hold t (some m.addr)), ?_, ?_⟩
  · unfold ListMemory.take
    rw [h.search, hfound]
    exact if_pos rfl
  · refine ⟨?_, fun u => ?_, fun m' hm' => ?_, ?_⟩
    · have hentries : s.entries none = as.map UserMapping.entry ++ m.entry :: bs.map UserMapping.entry := by
        simp [Custody.entries, hlist]
      apply h.family.removeEntryList hentries
      · intro i hi
        cases i with
        | none => exact absurd rfl hi
        | some u =>
          by_cases hu : u = t
          · subst hu
            simp [Custody.entries, Custody.detach, hk]
          · simp [Custody.entries, Custody.detach, Custody.give, hu]
      · simp [Custody.entries, Custody.detach, herase]
    · by_cases hu : u = t
      · subst hu
        simp [ListMemory.hold, Custody.detach, UserMapping.inHand]
      · simp [ListMemory.hold, Custody.detach, Custody.give, hu, h.held]
    · exact h.record m' (List.mem_of_mem_eraseP hm')
    · exact Nat.le_trans (List.length_eraseP_le) h.rounds

/-- The lists after a detachment of several records to a private list that was empty. -/
theorem Custody.Laid.swept {f : UserMapping → Bool} {l : Links ListNode} (h : s.Laid mem)
    (hk : s.work t = {})
    (hfamily : l.Family ListNode.head
      (s.detach t { list := s.list.filter f } (s.list.filter fun m => !f m) (s.list.filter f)).entries) :
    (s.detach t { list := s.list.filter f } (s.list.filter fun m => !f m) (s.list.filter f)).Laid
      { mem with links := l } := by
  refine ⟨hfamily, fun u => ?_, fun m hm => ?_, ?_⟩
  · by_cases hu : u = t
    · subst hu
      simp [Custody.detach, h.held, hk]
    · simp [Custody.detach, Custody.give, hu, h.held]
  · exact h.record m (List.mem_filter.mp hm).1
  · exact Nat.le_trans (List.length_filter_le ..) h.rounds

theorem Custody.swept_others {f : UserMapping → Bool} (i : Option Tid) (hi : i ≠ none) (hit : i ≠ some t) :
    (s.detach t { list := s.list.filter f } (s.list.filter fun m => !f m) (s.list.filter f)).entries i =
      s.entries i := by
  cases i with
  | none => exact absurd rfl hi
  | some u =>
    have hut : u ≠ t := fun heq => hit (heq ▸ rfl)
    simp [Custody.entries, Custody.detach, Custody.give, hut]

/-- The cleanup of a handle moves its records one by one. -/
theorem Custody.Laid.sweepFile (h : s.Laid mem) (hk : s.work t = {}) (fo : FileObject) :
    ∃ mem', mem.sweepFile t fo = some mem' ∧
      (s.detach t { list := s.list.filter fun m => m.fileObject == fo }
        (s.list.filter fun m => !(m.fileObject == fo)) (s.list.filter fun m => m.fileObject == fo)).Laid mem' := by
  have hempty : s.entries (some t) = [] := by simp [Custody.entries, hk]
  have hfamily := h.family.initializeListHead hempty
  have hfirst := (hfamily.circle none).closed.flink_eq
  obtain ⟨l', hmove, hfamily'⟩ : ∃ l', (mem.links.initializeListHead (.toDestroy t)).moveFrom
      (ListNode.head none) (ListNode.head (some t)) (mem.test (·.fileObject == fo)) mem.rounds
        ((s.entries none ++ [ListNode.head none]).head (by simp)) = some l' ∧
      l'.Family ListNode.head
        (s.detach t { list := s.list.filter fun m => m.fileObject == fo }
          (s.list.filter fun m => !(m.fileObject == fo)) (s.list.filter fun m => m.fileObject == fo)).entries := by
    apply hfamily.moveFrom (i := none) (j := some t) nofun [] (s.entries none) rfl
    · rw [Custody.entries, List.length_map]
      exact Nat.lt_succ_of_le h.rounds
    · exact Custody.swept_others
    · show (s.list.filter fun m => !(m.fileObject == fo)).map UserMapping.entry = _
      rw [List.nil_append, Custody.entries]
      apply (filter_entries _).symm
      intro m hm
      rw [h.test _ m hm]
    · rw [hempty, List.nil_append, Custody.entries, filter_entries (h.test _)]
      simp [Custody.entries, Custody.detach]
  refine ⟨{ mem with links := l' }, ?_, h.swept hk hfamily'⟩
  rw [← hfirst] at hmove
  exact congrArg (Option.map _) hmove

/-- The revocation moves the whole list at once. -/
theorem Custody.Laid.sweepAll (h : s.Laid mem) (hk : s.work t = {}) :
    (s.detach t { list := s.list } [] s.list).Laid (mem.sweepAll t) := by
  have hempty : s.entries (some t) = [] := by simp [Custody.entries, hk]
  have hfamily := h.family.initializeListHead hempty
  have hall : s.detach t { list := s.list } [] s.list =
      s.detach t { list := s.list.filter fun _ => true } (s.list.filter fun _ => !true)
        (s.list.filter fun _ => true) := by
    simp
  rw [hall]
  apply h.swept hk
  rw [← hall]
  have hlist : (mem.links.initializeListHead (.toDestroy t)).isListEmpty .mappingList =
      (s.entries none).isEmpty := (hfamily.circle none).isListEmpty
  rw [hlist]
  have hnone : (s.detach t { list := s.list } [] s.list).entries none = [] := rfl
  have hself : (s.detach t { list := s.list } [] s.list).entries (some t) = s.entries none := by
    simp [Custody.entries, Custody.detach]
  have hothers : ∀ i, i ≠ none → i ≠ some t →
      (s.detach t { list := s.list } [] s.list).entries i = s.entries i := by
    rw [hall]
    exact Custody.swept_others
  by_cases hentries : s.entries none = []
  · rw [hentries, List.isEmpty_nil, if_pos rfl]
    have hsame : (s.detach t { list := s.list } [] s.list).entries = s.entries := by
      funext i
      by_cases hi : i = none
      · rw [hi, hnone, hentries]
      · by_cases hit : i = some t
        · rw [hit, hself, hentries, hempty]
        · exact hothers i hi hit
    rw [hsame]
    exact hfamily
  · rw [List.isEmpty_eq_false_iff.mpr hentries, if_neg Bool.false_ne_true]
    exact hfamily.splice (i := none) (j := some t) (fun h => by cases h) hentries hempty hothers hnone hself

/-- The next record comes off the private list, if there is one. -/
theorem Custody.Laid.turn (h : s.Laid mem) (hk : (s.work t).held = none ∨ (s.work t).list = []) :
    (s.give t (s.work t).turn).Laid (mem.removeNext t) := by
  have hempty : mem.links.isListEmpty (.toDestroy t) = ((s.work t).list.map UserMapping.entry).isEmpty :=
    (h.family.circle (some t)).isListEmpty
  cases hlist : (s.work t).list with
  | nil =>
    rw [hlist, List.map_nil, List.isEmpty_nil] at hempty
    rw [Work.turn_of_nil hlist, give_self]
    unfold ListMemory.removeNext
    rw [if_pos hempty]
    exact h
  | cons m ms =>
    have hheld : (s.work t).held = none := hk.resolve_right (by simp [hlist])
    have hwork : s.work t = ⟨none, m :: ms⟩ := by rw [← hheld, ← hlist]
    rw [hlist, List.map_cons, List.isEmpty_cons] at hempty
    have hentries : s.entries (some t) = m.entry :: ms.map UserMapping.entry := by
      rw [Custody.entries, hlist, List.map_cons]
    have hc := h.family.circle (some t)
    rw [hentries] at hc
    unfold ListMemory.removeNext
    rw [hempty, if_neg Bool.false_ne_true, hwork]
    rw [show mem.links.removeHeadList (.toDestroy t) = _ from hc.removeHeadList]
    refine ⟨?_, fun u => ?_, h.record, h.rounds⟩
    · rw [← List.nil_append (m.entry :: _)] at hentries
      apply h.family.removeEntryList (i := some t) hentries
      · exact Custody.entries_other (k := Work.turn ⟨none, m :: ms⟩) rfl rfl
      · simp [Custody.entries, Work.turn]
    · by_cases hu : u = t
      · subst hu
        simp [ListMemory.hold, Work.turn, UserMapping.inHand, UserMapping.entry, ListNode.record]
      · simp [ListMemory.hold, Custody.give, hu, h.held]

/-- An operation does to the lists in memory what it does to the records. -/
theorem Handling.memory {o : Op} {x : o.Ans} (h : Handling t s o x s') (hs : s.Sound) (hl : s.Laid mem) :
    ∃ mem', mem.note t o x = some mem' ∧ s'.Laid mem' := by
  have hheld : ∀ {h : InHand} {ms : List UserMapping}, s.work t = ⟨some h, ms⟩ →
      mem.hold t (some h.addr) = mem := by
    intro h ms hk
    have hsame : mem.held t = some h.addr := by rw [hl.held, hk]; rfl
    unfold ListMemory.hold
    rw [← hsame, Function.update_eq_self]
  cases h with
  | spares x ho => exact ⟨mem, ho.memory x t mem, hl⟩
  | noBlock => exact ⟨mem, rfl, hl⟩
  | notInserted => exact ⟨mem, rfl, hl⟩
  | notFound fo va hnone =>
    refine ⟨mem, ?_, hl⟩
    show mem.take t fo va none = _
    unfold ListMemory.take
    rw [hl.search, hnone]
    exact if_pos rfl
  | alloc a hk hnone =>
    refine ⟨_, rfl, ?_⟩
    exact hl.hold (k := { held := some { addr := a } }) (by rw [hk]) rfl rfl
  | reference p a hk =>
    refine ⟨mem, rfl, ?_⟩
    rw [← hheld hk]
    exact hl.hold (k := { held := some ⟨a, some p, false⟩ }) (by rw [hk]) rfl rfl
  | dereference p a i ms hk =>
    refine ⟨mem, rfl, ?_⟩
    rw [← hheld hk]
    exact hl.hold (k := ⟨some ⟨a, none, i⟩, ms⟩) (by rw [hk]) rfl rfl
  | free a i ms hk =>
    refine ⟨mem.hold t none, ?_, ?_⟩
    · have hsame : mem.held t = some a := by rw [hl.held, hk]; rfl
      exact if_pos hsame
    · exact hl.hold (k := ⟨none, ms⟩) (by rw [hk]) rfl rfl
  | insert m hk => exact ⟨_, rfl, hl.insert hs hk⟩
  | append m hk => exact ⟨_, rfl, hl.insert hs hk⟩
  | take fo va m hk hfound => exact hl.take hk hfound
  | sweepFile fo hk => exact hl.sweepFile hk fo
  | sweepAll hk => exact ⟨_, rfl, hl.sweepAll hk⟩
  | turn p hk => exact ⟨_, rfl, hl.turn hk⟩

end Memory

/-! ## Every run -/

/-- What the ledger says agrees with the world. -/
structure Ledger.Balanced (g : Ledger) (w : World) : Prop where
  sound : w.custody.Sound
  memory : ∃ mem, g.memory = some mem ∧ w.custody.Laid mem
  births : g.births.Kept w.pool
  references : w.custody.Tallied g.references

theorem balanced_initial (buffer : Nat → UInt8) : Ledger.Balanced {} { buffer } where
  sound := by
    refine ⟨fun i x hx => ?_, fun a ha => absurd rfl ha, fun i => ?_⟩
    · cases i <;> cases hx
    · cases i <;> exact List.nodup_nil
  memory := by
    refine ⟨{}, rfl, ⟨fun i => ?_, fun i j hij u hu hu' => ?_⟩, fun _ => rfl, (fun _ hm => by cases hm), Nat.le_refl 0⟩
    · cases i <;> exact ⟨⟨rfl, rfl⟩, List.nodup_singleton _⟩
    · cases i <;> cases j <;> simp_all [Custody.entries, ListNode.head, World.custody, World.work, Work.after]
  births := by
    refine ⟨fun _ h => absurd rfl h, fun _ _ h => absurd rfl h, fun _ _ _ h => absurd rfl h, fun n h => ?_,
      List.nodup_nil, fun _ h => ?_⟩
    · exact absurd h (Nat.not_lt_zero n)
    · cases h
  references := by
    refine ⟨fun a p => ⟨(fun h => by cases h), ?_⟩, List.nodup_nil, fun _ => rfl⟩
    rintro ⟨i, x, hx, -⟩
    cases i <;> cases hx

theorem Ledger.Balanced.congr {g : Ledger} {w w' : World} (h : g.Balanced w) (hc : w'.custody = w.custody) :
    g.Balanced w' := by
  have hpool : w'.pool = w.pool := congrArg Custody.pool hc
  exact ⟨hc ▸ h.sound, hc ▸ h.memory, hpool ▸ h.births, hc ▸ h.references⟩

/-- An operation that the thread's records allow keeps the balance. -/
theorem Ledger.Balanced.exec {g : Ledger} {w w' : World} {t : Tid} {o : Op} {e : Choice} {x : o.Ans}
    (h : g.Balanced w) (he : w.exec t o e = some (x, w')) (ha : (w.work t).allows o) :
    (ledger.note t o x w g).Balanced w' := by
  have hstep := exec_handling he ha
  obtain ⟨mem, hmem, hlaid⟩ := h.memory
  obtain ⟨mem', hnote, hlaid'⟩ := hstep.memory h.sound hlaid
  refine ⟨hstep.sound h.sound, ⟨mem', ?_, hlaid'⟩, hstep.births h.sound h.births, ?_⟩
  · show g.memory.bind (·.note t o x) = _
    rw [hmem]
    exact hnote
  · show w'.custody.Tallied (noteReference (g.memory.bind (·.held t)) g.references o)
    rw [hmem, Option.bind_some, hlaid.held]
    exact hstep.references h.sound h.references

theorem work_of_hist {w w' : World} {t : Tid} (h : w'.hist t = w.hist t) : w'.work t = w.work t := by
  unfold World.work
  rw [h]

theorem custody_of_begins {L : Tid → Prop} {t : Tid} {p : Drv Unit} {w w' : World} (h : Begins L t p w w')
    (hidle : w.work t = {}) : w'.custody = w.custody := by
  have hwork : w'.work = w.work := by
    funext u
    by_cases hu : u = t
    · subst hu
      rw [hidle, World.work, begins_hist_self h]
      rfl
    · exact work_of_hist (begins_hist h hu)
  unfold World.custody
  rw [hwork, begins_ctx h]
  cases h <;> rfl

theorem custody_of_environment {w w' : World} (h : Environment w w') : w'.custody = w.custody := by
  cases h <;> rfl

/-- In every reachable configuration the ledger balances, and who has no call has no record. -/
theorem reach_balanced {c : WatchedConfig Ledger} (h : Reach (driver.observe ledger) anyStep c) :
    c.world.2.Balanced c.world.1 ∧ ∀ t, ¬ c.live t → c.world.1.work t = {} := by
  obtain ⟨w, hw, hr⟩ := h
  induction hr with
  | refl =>
    obtain ⟨w, g⟩ := w
    obtain ⟨⟨buffer, rfl⟩, rfl⟩ : w.Initial ∧ g = {} := hw
    exact ⟨balanced_initial buffer, fun _ _ => rfl⟩
  | @tail c₁ c₂ hr hs ih =>
    obtain ⟨hbal, hidle⟩ := ih
    have hreach : Reach driver anyStep c₁.forget := reach_unwatched (h := ⟨w, hw, hr⟩)
    cases hs with
    | @begins t p w' hnone hb =>
      obtain ⟨hb, hsame⟩ := hb
      have hnl : ¬ c₁.live t := fun hl => hl hnone
      have hc := custody_of_begins hb (hidle t hnl)
      refine ⟨?_, fun u hu => ?_⟩
      · show w'.2.Balanced w'.1
        rw [hsame]
        exact hbal.congr hc
      · have hut : u ≠ t := by
          rintro rfl
          exact hu (by simp [Config.live])
        rw [c₁.set_live_ne w' _ hut] at hu
        rw [Config.set_world, work_of_hist (begins_hist hb hut)]
        exact hidle u hu
    | @exec t o k e x w' hpool _ he =>
      obtain ⟨he, -, hnote⟩ := watched_exec he
      have hworks := reach_works hreach hpool
      refine ⟨?_, fun u hu => ?_⟩
      · show w'.2.Balanced w'.1
        rw [hnote]
        exact hbal.exec he hworks.1
      · have hut : u ≠ t := by
          rintro rfl
          exact hu (by simp [Config.live])
        rw [c₁.set_live_ne w' _ hut] at hu
        rw [Config.set_world, exec_work he, Function.update_of_ne hut]
        exact hidle u hu
    | @ends t w' hpool he =>
      obtain ⟨he, hsame⟩ := he
      have hleave : w'.1 = c₁.world.1.leave t := he
      have hc : w'.1.custody = c₁.world.1.custody := by
        rw [hleave]
        cases t <;> rfl
      have hwork : w'.1.work = c₁.world.1.work := congrArg Custody.work hc
      refine ⟨?_, fun u hu => ?_⟩
      · show w'.2.Balanced w'.1
        rw [hsame]
        exact hbal.congr hc
      · rw [Config.set_world, hwork]
        by_cases hut : u = t
        · subst hut
          exact reach_works hreach hpool
        · rw [c₁.set_live_ne w' _ hut] at hu
          exact hidle u hu
    | @env w' he =>
      rcases he with ⟨he, hsame⟩ | ⟨-, n, hdrift⟩
      · have hc := custody_of_environment he
        have hwork : w'.1.work = c₁.world.1.work := congrArg Custody.work hc
        refine ⟨?_, fun u hu => ?_⟩
        · show w'.2.Balanced w'.1
          rw [hsame]
          exact hbal.congr hc
        · show w'.1.work u = {}
          rw [hwork]
          exact hidle u hu
      · cases hdrift

/-! ## Where every record is -/

/-- What can have become of an inserted record. -/
inductive Whereabouts where
  | listed
  | withThread (t : Tid)
  | destroyed
  deriving DecidableEq

/-- What has become of record `n`: its entry is on the circle of the mapping list; it is in the hands
of a thread or on the circle of its private list; or its block was freed. -/
def Births.Are (b : Births) (mem : ListMemory) (n : Nat) : Whereabouts → Prop
  | .listed => ∃ a es, b.number a = some n ∧ mem.links.Circle .mappingList es ∧ .entry a ∈ es
  | .withThread t => ∃ a, b.number a = some n ∧
      (mem.held t = some a ∨ ∃ es, mem.links.Circle (.toDestroy t) es ∧ .entry a ∈ es)
  | .destroyed => n ∈ b.destroyed

/-- The thread has allocated the record's block and not referenced its process yet, or dropped the
reference and not freed the block yet. -/
def World.Between (w : World) (t : Tid) (a : Nat) : Prop :=
  ∃ inserted, (w.work t).held = some ⟨a, none, inserted⟩

/-- The account of the mapping records of a configuration. -/
structure Accounted (c : WatchedConfig Ledger) (mem : ListMemory) : Prop where
  /-- The mapping list is a circle through the records listed. -/
  circle : mem.links.Circle .mappingList (c.world.1.ctx.mappingList.map UserMapping.entry)
  record : ∀ m ∈ c.world.1.ctx.mappingList, mem.record m.addr = some m
  /-- A record inserted is in exactly one place. -/
  place : ∀ n, n < c.world.2.births.born → ∃ x, c.world.2.births.Are mem n x ∧
    ∀ y, c.world.2.births.Are mem n y → y = x
  /-- None is destroyed twice. -/
  once : c.world.2.births.destroyed.Nodup
  /-- A thread whose call has ended left none behind. -/
  idle : ∀ t, ¬ c.live t → mem.held t = none ∧ mem.links.Circle (.toDestroy t) []
  /-- The references taken and not dropped are counted by the list of records that hold one. -/
  count : ∀ p, c.world.1.procRefs p = (c.world.2.references.countP (·.2 == p) : Nat)
  distinct : (c.world.2.references.map Prod.fst).Nodup
  /-- These are the records in being, less one about to be referenced or freed. -/
  holds : ∀ a, a ∈ c.world.2.references.map Prod.fst ↔
    c.world.1.pool a ≠ none ∧ ∀ t, ¬ c.world.1.Between t a
  /-- A record in being without a number is under construction. -/
  building : ∀ a, c.world.1.pool a ≠ none →
    (c.world.2.births.number a = none ↔ ∃ t, c.world.1.pool a = some (.building t))
  /-- With none of those, the references are as many as the records undestroyed and under
  construction. -/
  total : (∀ t a, ¬ c.world.1.Between t a) → c.world.2.references.length =
    (c.world.2.births.born - c.world.2.births.destroyed.length) +
      c.world.2.references.countP fun r => (c.world.2.births.number r.1).isNone

section Account

variable {w : World} {g : Ledger} {mem : ListMemory}

/-- Where the records of a holder are. -/
def whereabouts : Option Tid → Whereabouts
  | none => .listed
  | some t => .withThread t

/-- A record is where its holder is. -/
theorem are_whereabouts (hl : w.custody.Laid mem) {i : Option Tid} {n : Nat} :
    g.births.Are mem n (whereabouts i) ↔ ∃ h ∈ w.custody.items i, g.births.number h.addr = some n := by
  have hcircle := hl.family.circle
  cases i with
  | none =>
    constructor
    · rintro ⟨a, es, hnum, hc, hmem⟩
      rw [hc.unique (hcircle none)] at hmem
      obtain ⟨h, hh, rfl, -⟩ := Custody.mem_items_of_entry hmem
      exact ⟨h, hh, hnum⟩
    · rintro ⟨h, hh, hnum⟩
      obtain ⟨m, hm, rfl⟩ := List.mem_map.mp hh
      exact ⟨m.addr, _, hnum, hcircle none, List.mem_map_of_mem hm⟩
  | some t =>
    constructor
    · rintro ⟨a, hnum, hheld | ⟨es, hc, hmem⟩⟩
      · rw [hl.held] at hheld
        obtain ⟨h, hh, rfl⟩ := Option.map_eq_some_iff.mp hheld
        exact ⟨h, List.mem_append_left _ (Option.mem_toList.mpr hh), hnum⟩
      · rw [hc.unique (hcircle (some t))] at hmem
        obtain ⟨h, hh, rfl, -⟩ := Custody.mem_items_of_entry hmem
        exact ⟨h, hh, hnum⟩
    · rintro ⟨h, hh, hnum⟩
      refine ⟨h.addr, hnum, ?_⟩
      rcases List.mem_append.mp hh with hh | hh
      · left
        rw [hl.held, Option.mem_toList.mp hh]
        rfl
      · obtain ⟨m, hm, rfl⟩ := List.mem_map.mp hh
        exact .inr ⟨_, hcircle (some t), List.mem_map_of_mem hm⟩

/-- Every inserted record is in one place. -/
theorem are_unique (hl : w.custody.Laid mem) (hb : g.births.Kept w.pool) (hs : w.custody.Sound) {n : Nat}
    (hn : n < g.births.born) : ∃ x, g.births.Are mem n x ∧ ∀ y, g.births.Are mem n y → y = x := by
  have hused : ∀ {i : Option Tid} {h : InHand}, h ∈ w.custody.items i → w.pool h.addr ≠ none := by
    intro i h hh hnone
    cases (hs.placed i h hh).symm.trans hnone
  have hwhere : ∀ y, y = .destroyed ∨ ∃ i, y = whereabouts i := by
    intro y
    cases y with
    | listed => exact .inr ⟨none, rfl⟩
    | withThread t => exact .inr ⟨some t, rfl⟩
    | destroyed => exact .inl rfl
  rcases hb.found n hn with hdead | ⟨a, ha, hnum⟩
  · refine ⟨.destroyed, hdead, fun y hy => ?_⟩
    rcases hwhere y with rfl | ⟨i, rfl⟩
    · rfl
    · obtain ⟨h, hh, hnum⟩ := (are_whereabouts hl).mp hy
      exact absurd hdead (hb.alive _ n (hused hh) hnum).2
  · obtain ⟨i, h, hh, rfl⟩ := hs.found a ha
    refine ⟨whereabouts i, (are_whereabouts hl).mpr ⟨h, hh, hnum⟩, fun y hy => ?_⟩
    rcases hwhere y with rfl | ⟨j, rfl⟩
    · exact absurd hy (hb.alive _ n ha hnum).2
    · obtain ⟨h', hh', hnum'⟩ := (are_whereabouts hl).mp hy
      have haddr := hb.inj _ _ n (hused hh') ha hnum' hnum
      rw [(hs.unique placeOf_holder hh' hh haddr).1]

/-- The records with a reference are the records in being, less those about to be referenced or
freed. -/
theorem holds_iff (hs : w.custody.Sound) (ht : w.custody.Tallied g.references) (a : Nat) :
    a ∈ g.references.map Prod.fst ↔ w.pool a ≠ none ∧ ∀ t, ¬ w.Between t a := by
  constructor
  · intro hin
    obtain ⟨⟨a, p⟩, hmem, rfl⟩ := List.mem_map.mp hin
    obtain ⟨i, h, hh, rfl, hp⟩ := (ht.mem a p).mp hmem
    refine ⟨fun hnone => ?_, fun t ⟨b, hheld⟩ => ?_⟩
    · cases (hs.placed i h hh).symm.trans hnone
    · have hthis : (⟨h.addr, none, b⟩ : InHand) ∈ w.custody.items (some t) :=
        List.mem_append_left _ (Option.mem_toList.mpr hheld)
      have hsame := congrArg InHand.process (hs.unique placeOf_holder hh hthis rfl).2
      cases hsame.symm.trans hp
  · rintro ⟨ha, hnot⟩
    obtain ⟨i, h, hh, rfl⟩ := hs.found a ha
    cases hp : h.process with
    | some p => exact List.mem_map.mpr ⟨(h.addr, p), (ht.mem _ p).mpr ⟨i, h, hh, rfl, hp⟩, rfl⟩
    | none =>
      -- only a record in hand has none
      cases i with
      | none =>
        obtain ⟨m, -, rfl⟩ := List.mem_map.mp hh
        cases hp
      | some t =>
        rcases List.mem_append.mp hh with hh | hh
        · refine absurd ⟨h.inserted, ?_⟩ (hnot t)
          rw [← hp]
          exact Option.mem_toList.mp hh
        · obtain ⟨m, -, rfl⟩ := List.mem_map.mp hh
          cases hp

/-- Counting the references by number. -/
theorem references_total (hb : g.births.Kept w.pool) (hnodup : (g.references.map Prod.fst).Nodup)
    (hin : ∀ a, a ∈ g.references.map Prod.fst ↔ w.pool a ≠ none) : g.references.length =
      (g.births.born - g.births.destroyed.length) +
        g.references.countP fun r => (g.births.number r.1).isNone := by
  have hnumbers : (g.references.filterMap fun r => g.births.number r.1).Nodup := by
    refine List.pairwise_filterMap.mpr ?_
    refine List.Pairwise.imp_of_mem ?_ (List.pairwise_map.mp hnodup)
    rintro r r' hr hr' hne n hn n' hn' rfl
    apply hne
    exact hb.inj _ _ n ((hin _).mp (List.mem_map_of_mem hr)) ((hin _).mp (List.mem_map_of_mem hr')) hn hn'
  have hmem : ∀ n, n ∈ (g.references.filterMap fun r => g.births.number r.1) ↔
      n < g.births.born ∧ n ∉ g.births.destroyed := by
    intro n
    rw [List.mem_filterMap]
    constructor
    · rintro ⟨r, hr, hn⟩
      exact hb.alive _ n ((hin _).mp (List.mem_map_of_mem hr)) hn
    · rintro ⟨hn, hdead⟩
      obtain ⟨a, ha, hnum⟩ := (hb.found n hn).resolve_left hdead
      obtain ⟨r, hr, rfl⟩ := List.mem_map.mp ((hin a).mpr ha)
      exact ⟨r, hr, hnum⟩
  have hperm : ((g.references.filterMap fun r => g.births.number r.1) ++ g.births.destroyed).Perm
      (List.range g.births.born) := by
    refine (List.perm_ext_iff_of_nodup ?_ List.nodup_range).mpr fun n => ?_
    · apply List.nodup_append.mpr
      refine ⟨hnumbers, hb.nodup, fun a ha b hdead heq => ?_⟩
      exact ((hmem a).mp ha).2 (heq ▸ hdead)
    · rw [List.mem_append, hmem, List.mem_range]
      have := hb.dead n
      tauto
  have hlength := hperm.length_eq
  rw [List.length_append, List.length_range, List.length_filterMap_eq_countP] at hlength
  have hsplit := List.length_eq_countP_add_countP (fun r : Nat × Process => (g.births.number r.1).isSome)
    (l := g.references)
  have hnone : g.references.countP (fun r => decide ¬ (g.births.number r.1).isSome = true) =
      g.references.countP fun r => (g.births.number r.1).isNone := by
    apply List.countP_congr
    simp
  rw [hnone] at hsplit
  omega

end Account

/-- Every mapping record ever inserted is on the mapping list, with one thread, or destroyed, and no
record is destroyed twice; the mapping list in memory stays a circle; and the references taken on
processes and not dropped are those of the records undestroyed and under construction. -/
theorem records_destroyed_once {c : WatchedConfig Ledger} (h : Reach (driver.observe ledger) anyStep c) :
    ∃ mem, c.world.2.memory = some mem ∧ Accounted c mem := by
  obtain ⟨hbal, hidle⟩ := reach_balanced h
  obtain ⟨mem, hmem, hl⟩ := hbal.memory
  have hholds := holds_iff hbal.sound hbal.references
  refine ⟨mem, hmem, ?_⟩
  exact {
    circle := hl.family.circle none
    record := hl.record
    place := fun n hn => are_unique hl hbal.births hbal.sound hn
    once := hbal.births.nodup
    idle := fun t ht => by
      have hwork := hidle t ht
      refine ⟨?_, ?_⟩
      · rw [hl.held, show c.world.1.custody.work t = {} from hwork]
        rfl
      · have hc := hl.family.circle (some t)
        rwa [Custody.entries, show c.world.1.custody.work t = {} from hwork] at hc
    count := hbal.references.count
    distinct := hbal.references.nodup
    holds := hholds
    building := hbal.births.numbered
    total := fun hnone => references_total hbal.births hbal.references.nodup fun a =>
      (hholds a).trans ⟨fun ha => ha.1, fun ha => ⟨ha, fun t => hnone t a⟩⟩ }

/-- Handles 1 and 2 map a page each; handle 1 is closed, and its cleanup is unmapping its page while
the record of handle 2 is listed. -/
def closesOne : List Move :=
  mapsPage ++
    [.ioctl { mapRequest with fileObject := some 2, requestor := some 2 } .mapBar 2,
      .ops .ioctl (plainOps 11 ++ [.address 0x200] ++ plainOps 3 ++ [.address 0x20000] ++ plainOps 6),
      .ends .ioctl, .cleanup 1 1, .ops (.cleanup 1) (plainOps 3)]

theorem records_destroyed_once_closing :
    ∃ c : WatchedConfig Ledger, Reach (driver.observe ledger) anyStep c ∧ c.world.2.births.born = 2 ∧
      ∃ mem, c.world.2.memory = some mem ∧ mem.held (.cleanup 1) = some 0x100 ∧ Accounted c mem := by
  have hplay : (WatchedConfig.play ledger (fun _ _ _ => true) (closesOne.map .driver)
      (idle.watched {})).any (fun c => c.world.2.births.born == 2 &&
        c.world.2.memory.any fun mem => mem.held (.cleanup 1) == some 0x100) = true := by
    decide +kernel
  obtain ⟨c, hreach, hend⟩ := WatchedConfig.exists_reach (fun _ _ _ _ => trivial) rfl hplay
  simp only [Bool.and_eq_true, beq_iff_eq, Option.any_eq_true] at hend
  obtain ⟨hborn, mem, hmem, hheld⟩ := hend
  obtain ⟨mem', hmem', haccount⟩ := records_destroyed_once hreach
  obtain rfl := Option.some.inj (hmem.symm.trans hmem')
  exact ⟨c, hreach, hborn, mem, hmem, hheld, haccount⟩

end TtWind
