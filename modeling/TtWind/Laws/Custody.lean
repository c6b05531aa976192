import TtWind.Holders
import TtWind.Laws.Work

/-!
# Who has which mapping record

`Custody` is what the world says of the mapping records: what each thread has, the mapping list, the
pool blocks and the counts of process references. `Handling` lists what one operation does to it,
once for all arguments about records. `Custody.Sound` says that every block is with exactly one
holder: the mapping list, or one thread.
-/

set_option autoImplicit false

namespace TtWind

open TtWind.Effect TtWind.Effect.Prog

/-- What the world says of the mapping records. -/
structure Custody where
  work : Tid → Work
  list : List UserMapping
  pool : Nat → Option Place
  refs : Process → Int

def World.custody (w : World) : Custody := ⟨w.work, w.ctx.mappingList, w.pool, w.procRefs⟩

namespace Custody

/-- The thread has these records now. -/
def give (s : Custody) (t : Tid) (k : Work) : Custody := { s with work := Function.update s.work t k }

@[simp] theorem give_list (s : Custody) (t : Tid) (k : Work) : (s.give t k).list = s.list := rfl

@[simp] theorem give_pool (s : Custody) (t : Tid) (k : Work) : (s.give t k).pool = s.pool := rfl

@[simp] theorem give_refs (s : Custody) (t : Tid) (k : Work) : (s.give t k).refs = s.refs := rfl

@[simp] theorem give_work_self (s : Custody) (t : Tid) (k : Work) : (s.give t k).work t = k :=
  Function.update_self ..

/-- Records move from the mapping list to a thread. -/
def detach (s : Custody) (t : Tid) (k : Work) (kept moved : List UserMapping) : Custody :=
  { s.give t k with
    list := kept
    pool := fun a => if moved.any (·.addr == a) then some (.detached t) else s.pool a }

end Custody

/-- What an operation of a thread, answered so, does to the records. -/
inductive Handling (t : Tid) (s : Custody) : (o : Op) → o.Ans → Custody → Prop where
  | spares {o : Op} (x : o.Ans) : o.sparesRecords → Handling t s o x s
  | noBlock : Handling t s .allocPool none s
  | notInserted (m : UserMapping) : Handling t s (.locked (.insertMapping m)) false s
  | notFound (fo : FileObject) (va : UInt64) : s.list.find? (Section.isMappingAt fo va) = none →
      Handling t s (.locked (.takeMapping fo va)) none s
  | alloc (a : Nat) : s.work t = {} → s.pool a = none →
      Handling t s .allocPool (some a)
        { s.give t { held := some { addr := a } } with pool := Function.update s.pool a (some (.building t)) }
  | reference (p : Process) (a : Nat) : s.work t = { held := some { addr := a } } →
      Handling t s (.referenceProcess p) ()
        { s.give t { held := some ⟨a, some p, false⟩ } with
          refs := Function.update s.refs p (s.refs p + 1) }
  | dereference (p : Process) (a : Nat) (b : Bool) (ms : List UserMapping) :
      s.work t = ⟨some ⟨a, some p, b⟩, ms⟩ →
      Handling t s (.dereferenceProcess p) ()
        { s.give t ⟨some ⟨a, none, b⟩, ms⟩ with refs := Function.update s.refs p (s.refs p - 1) }
  | free (a : Nat) (b : Bool) (ms : List UserMapping) : s.work t = ⟨some ⟨a, none, b⟩, ms⟩ →
      Handling t s (.freePool a) ()
        { s.give t ⟨none, ms⟩ with pool := Function.update s.pool a none }
  | insert (m : UserMapping) : s.work t = { held := some ⟨m.addr, some m.process, false⟩ } →
      Handling t s (.locked (.insertMapping m)) true
        { s.give t {} with
          list := s.list ++ [m]
          pool := Function.update s.pool m.addr (some .listed) }
  | append (m : UserMapping) : s.work t = { held := some ⟨m.addr, some m.process, false⟩ } →
      Handling t s (.locked (.appendMapping m)) ()
        { s.give t {} with
          list := s.list ++ [m]
          pool := Function.update s.pool m.addr (some .listed) }
  | take (fo : FileObject) (va : UInt64) (m : UserMapping) : s.work t = {} →
      s.list.find? (Section.isMappingAt fo va) = some m →
      Handling t s (.locked (.takeMapping fo va)) (some m)
        (s.detach t { held := some m.inHand } (s.list.eraseP (Section.isMappingAt fo va)) [m])
  | sweepFile (fo : FileObject) : s.work t = {} →
      Handling t s (.locked (.sweepFile fo)) (s.list.filter fun m => m.fileObject == fo)
        (s.detach t { list := s.list.filter fun m => m.fileObject == fo }
          (s.list.filter fun m => !(m.fileObject == fo)) (s.list.filter fun m => m.fileObject == fo))
  | sweepAll : s.work t = {} →
      Handling t s (.locked .sweepAll) s.list (s.detach t { list := s.list } [] s.list)
  | turn (p : Process) : (s.work t).held = none ∨ (s.work t).list = [] →
      Handling t s .currentProcess p (s.give t (s.work t).turn)

section Exec

variable {t : Tid} {o : Op} {e : Choice} {w w' : World} {x : o.Ans}

/-- The records of the thread after an operation; those of the others stay. -/
theorem exec_work (he : w.exec t o e = some (x, w')) :
    w'.work = Function.update w.work t ((w.work t).next ⟨o, x⟩) := by
  funext u
  rw [World.work, (World.exec_frame he).hist]
  by_cases hu : u = t
  · subst hu
    simp only [Function.update_self]
    rfl
  · simp only [Function.update_of_ne hu]
    rfl

/-- What an operation leaves of the pool and the list, it leaves. -/
theorem exec_sparesRecords (ho : o.sparesRecords) (he : w.exec t o e = some (x, w')) : w'.custody = w.custody := by
  have hf := World.exec_frame he
  have hwork : w'.work = w.work := by
    rw [exec_work he, ho.next, Function.update_eq_self]
  have hlist : w'.ctx.mappingList = w.ctx.mappingList := by
    rw [hf.ctx]
    cases o with
    | locked s => exact Section.LeavesList.list ho w.ctx
    | store f => exact (ho w.ctx).1
    | _ => rfl
  have hpool : w'.pool = w.pool := by
    cases o with
    | locked s =>
      obtain ⟨-, hpool, -⟩ := exec_locked he
      exact hpool.trans (Section.LeavesList.places ho t x w.pool)
    | allocPool => exact ho.elim
    | freePool a => exact ho.elim
    | _ => exact hf.pool id
  have hrefs : w'.procRefs = w.procRefs := by
    cases o with
    | referenceProcess p => exact ho.elim
    | dereferenceProcess p => exact ho.elim
    | _ => exact hf.procRefs id
  unfold World.custody
  rw [hwork, hlist, hpool, hrefs]

theorem custody_eq {k : Work} {list : List UserMapping} {pool : Nat → Option Place}
    {refs : Process → Int} (hwork : w'.work = Function.update w.work t k) (hlist : w'.ctx.mappingList = list)
    (hpool : w'.pool = pool) (hrefs : w'.procRefs = refs) :
    w'.custody = ⟨Function.update w.work t k, list, pool, refs⟩ := by
  unfold World.custody
  rw [hwork, hlist, hpool, hrefs]

theorem exec_allocPool_cases {x : Option Nat} (he : w.exec t .allocPool e = some (x, w')) :
    (x = none ∧ w'.pool = w.pool) ∨
      ∃ a, x = some a ∧ w.pool a = none ∧ w'.pool = Function.update w.pool a (some (.building t)) := by
  obtain ⟨w₁, hs, rfl⟩ := World.exec_step he
  cases e with
  | address a =>
    simp only [World.step, Option.ite_none_right_eq_some, Option.some.injEq, Prod.mk.injEq] at hs
    obtain ⟨hnone, rfl, rfl⟩ := hs
    exact .inr ⟨a, rfl, hnone, rfl⟩
  | fail s =>
    obtain ⟨rfl, rfl⟩ := Prod.mk.inj (Option.some.inj hs)
    exact .inl ⟨rfl, rfl⟩
  | _ => cases hs

theorem places_detach {ms : List UserMapping} {pool : Nat → Option Place} (t : Tid) (m : UserMapping)
    (hms : ms = [m]) : Function.update pool m.addr (some (.detached t)) =
      fun a => if ms.any (·.addr == a) then some (.detached t) else pool a := by
  subst hms
  funext a
  by_cases ha : a = m.addr
  · simp [ha]
  · simp [ha, Ne.symm ha]

/-- A section is answered by the list it found. -/
theorem exec_section {s : Section} {x : s.Ans} (he : w.exec t (.locked s) e = some (x, w'))
    (ha : (w.work t).allowsSection s) : Handling t w.custody (.locked s) x w'.custody := by
  have hf := World.exec_frame he
  have hwork := exec_work he
  obtain ⟨hx, hpool, -⟩ := exec_locked he
  have hlist : w'.ctx.mappingList = (s.run w.ctx).2.mappingList := by rw [hf.ctx]; rfl
  have hrefs : w'.procRefs = w.procRefs := hf.procRefs id
  have hspares : s.LeavesList → Handling t w.custody (.locked s) x w'.custody := by
    intro hs
    have ho : (Op.locked s).sparesRecords := hs
    rw [exec_sparesRecords ho he]
    exact .spares x ho
  cases s with
  | insertMapping m =>
    have hk : w.work t = { held := some ⟨m.addr, some m.process, false⟩ } := ha
    by_cases hlost : 0 ≤ m.tlbId ∧ w.ctx.tlbOwner m.tlbId.toNat ≠ some m.fileObject
    · simp only [Section.run, if_pos hlost] at hx hlist
      subst hx
      have hsame : w'.work = Function.update w.work t (w.work t) := by rw [hwork, hk]; rfl
      rw [custody_eq hsame hlist hpool hrefs, Function.update_eq_self]
      exact .notInserted m
    · simp only [Section.run, if_neg hlost] at hx hlist
      subst hx
      rw [hk] at hwork
      rw [custody_eq hwork hlist hpool hrefs]
      exact .insert m hk
  | appendMapping m =>
    have hk : w.work t = { held := some ⟨m.addr, some m.process, false⟩ } := ha
    rw [hk] at hwork
    rw [custody_eq hwork hlist hpool hrefs]
    exact .append m hk
  | takeMapping fo va =>
    have hk : w.work t = {} := ha
    cases hfound : w.ctx.mappingList.find? (Section.isMappingAt fo va) with
    | none =>
      simp only [Section.run, hfound] at hx hlist
      subst hx
      have hsame : w'.work = Function.update w.work t (w.work t) := by rw [hwork, hk]; rfl
      rw [custody_eq hsame hlist hpool hrefs, Function.update_eq_self]
      exact .notFound fo va hfound
    | some m =>
      simp only [Section.run, hfound] at hx hlist
      subst hx
      rw [hk] at hwork
      rw [custody_eq hwork hlist (hpool.trans (places_detach t m rfl)) hrefs]
      exact .take fo va m hk hfound
  | sweepFile fo =>
    have hk : w.work t = {} := ha
    subst hx
    rw [hk] at hwork
    rw [custody_eq hwork hlist hpool hrefs]
    exact .sweepFile fo hk
  | sweepAll =>
    have hk : w.work t = {} := ha
    subst hx
    rw [hk] at hwork
    rw [custody_eq hwork hlist hpool hrefs]
    exact .sweepAll hk
  | _ => exact hspares trivial

/-- What an operation does to the records, when the thread's records allow it. -/
theorem exec_handling (he : w.exec t o e = some (x, w')) (ha : (w.work t).allows o) :
    Handling t w.custody o x w'.custody := by
  have hf := World.exec_frame he
  have hwork := exec_work he
  have hspares : o.sparesRecords → Handling t w.custody o x w'.custody := by
    intro ho
    rw [exec_sparesRecords ho he]
    exact .spares x ho
  have hkept : ∀ {o' : Op}, o = o' → (∀ c, o'.effect c = c) → w'.ctx.mappingList = w.ctx.mappingList := by
    rintro _ rfl heffect
    rw [hf.ctx, heffect]
  cases o with
  | allocPool =>
    have hk : w.work t = {} := ha
    rw [hk] at hwork
    rcases exec_allocPool_cases he with ⟨rfl, hpool⟩ | ⟨a, rfl, hnone, hpool⟩
    · have hsame : w'.work = Function.update w.work t (w.work t) := by rw [hwork, hk]; rfl
      rw [custody_eq hsame (hkept rfl fun _ => rfl) hpool (hf.procRefs id), Function.update_eq_self]
      exact .noBlock
    · rw [custody_eq hwork (hkept rfl fun _ => rfl) hpool (hf.procRefs id)]
      exact .alloc a hk hnone
  | freePool a =>
    have hpool : w'.pool = Function.update w.pool a none := by
      obtain ⟨w₁, hs, rfl⟩ := World.exec_step he
      obtain ⟨-, rfl⟩ := Prod.mk.inj (Option.some.inj hs)
      rfl
    obtain ⟨b, ms, hk⟩ : ∃ b ms, w.work t = ⟨some ⟨a, none, b⟩, ms⟩ := by
      obtain ⟨⟨a, _, b⟩, hheld, rfl, rfl⟩ := ha
      exact ⟨b, (w.work t).list, by rw [← hheld]⟩
    rw [hk] at hwork
    rw [custody_eq hwork (hkept rfl fun _ => rfl) hpool (hf.procRefs id)]
    exact .free a b ms hk
  | referenceProcess p =>
    obtain ⟨a, hk⟩ := ha
    rw [hk] at hwork
    have hrefs : w'.procRefs = Function.update w.procRefs p (w.procRefs p + 1) := by
      obtain ⟨w₁, hs, rfl⟩ := World.exec_step he
      obtain ⟨-, rfl⟩ := Prod.mk.inj (Option.some.inj hs)
      rfl
    rw [custody_eq hwork (hkept rfl fun _ => rfl) (hf.pool id) hrefs]
    exact .reference p a hk
  | dereferenceProcess p =>
    obtain ⟨a, b, ms, hk⟩ : ∃ a b ms, w.work t = ⟨some ⟨a, some p, b⟩, ms⟩ := by
      obtain ⟨⟨a, _, b⟩, hheld, rfl⟩ := ha
      exact ⟨a, b, (w.work t).list, by rw [← hheld]⟩
    rw [hk] at hwork
    have hrefs : w'.procRefs = Function.update w.procRefs p (w.procRefs p - 1) := by
      obtain ⟨w₁, hs, rfl⟩ := World.exec_step he
      obtain ⟨-, rfl⟩ := Prod.mk.inj (Option.some.inj hs)
      rfl
    rw [custody_eq hwork (hkept rfl fun _ => rfl) (hf.pool id) hrefs]
    exact .dereference p a b ms hk
  | currentProcess =>
    rw [Work.next_currentProcess] at hwork
    rw [custody_eq hwork (hkept rfl fun _ => rfl) (hf.pool id) (hf.procRefs id)]
    exact .turn x ha
  | locked s => exact exec_section he ha
  | store f => exact hspares ha
  | _ => exact hspares trivial

end Exec

/-! ## Every block has one holder -/

/-- The records of a thread: the one in hand, and those on its private list. -/
def Work.items (k : Work) : List InHand := k.held.toList ++ k.list.map UserMapping.inHand

@[simp] theorem Work.items_mk (held : Option InHand) (list : List UserMapping) :
    Work.items ⟨held, list⟩ = held.toList ++ list.map UserMapping.inHand := rfl

theorem Work.items_turn (k : Work) : k.turn.items = k.items := by
  obtain ⟨held, list⟩ := k
  cases held <;> cases list <;> rfl

/-- Where the records of a holder are: on the mapping list, or with a thread that builds or
destroys them. -/
def placeOf : Option Tid → InHand → Place
  | none, _ => .listed
  | some t, h => if h.inserted then .detached t else .building t

theorem placeOf_holder (i j : Option Tid) (x y : InHand) (h : placeOf i x = placeOf j y) : i = j := by
  cases i <;> cases j <;> simp only [placeOf] at h <;> grind

namespace Custody

/-- The records of each holder: a thread, or the mapping list. -/
def items (s : Custody) : Option Tid → List InHand
  | none => s.list.map UserMapping.inHand
  | some t => (s.work t).items

/-- The pool accounts for all records. -/
def Sound (s : Custody) : Prop := Allotted InHand.addr placeOf s.items s.pool

variable {s : Custody} {t : Tid}

theorem items_other {s' : Custody} {k : Work} (hwork : s'.work = Function.update s.work t k)
    (hlist : s'.list = s.list) : ∀ i, i ≠ some t → s'.items i = s.items i := by
  intro i hi
  cases i with
  | none => simp [items, hlist]
  | some u =>
    have hut : u ≠ t := fun heq => hi (heq ▸ rfl)
    simp [items, hwork, hut]

theorem items_others {s' : Custody} {k : Work} (hwork : s'.work = Function.update s.work t k) :
    ∀ i, i ≠ none → i ≠ some t → s'.items i = s.items i := by
  intro i hi hit
  cases i with
  | none => exact absurd rfl hi
  | some u =>
    have hut : u ≠ t := fun heq => hit (heq ▸ rfl)
    simp [items, hwork, hut]

theorem give_items_ne (s : Custody) (k : Work) : ∀ i, i ≠ some t → (s.give t k).items i = s.items i := by
  intro i hi
  apply items_other (k := k) _ _ i hi
  · rfl
  · rfl

/-- A thread that turns to the next record of its list still has the same records. -/
theorem items_turn (s : Custody) (t : Tid) : (s.give t (s.work t).turn).items = s.items := by
  funext i
  by_cases hi : i = some t
  · subst hi
    simp [items, Work.items_turn]
  · exact give_items_ne s _ i hi

end Custody

/-- The first record found, and the list without it. -/
theorem eraseP_of_find? {α : Type} {f : α → Bool} {l : List α} {m : α} (h : l.find? f = some m) :
    ∃ as bs, l = as ++ m :: bs ∧ l.eraseP f = as ++ bs := by
  obtain ⟨hm, as, bs, rfl, has⟩ := List.find?_eq_some_iff_append.mp h
  refine ⟨as, bs, rfl, ?_⟩
  rw [List.eraseP_append_right _ (by simpa using has), List.eraseP_cons_of_pos hm]

/-- Detaching moves the records from the mapping list to the thread. -/
theorem Custody.Sound.detach {s : Custody} {t : Tid} {k : Work} {kept moved : List UserMapping}
    (hs : s.Sound) (hk : s.work t = {}) (hlist : s.list.Perm (moved ++ kept))
    (hitems : k.items = moved.map UserMapping.inHand) : (s.detach t k kept moved).Sound := by
  apply Allotted.moveAll placeOf_holder (moved.map UserMapping.inHand) id hs (i := none) (j := some t) nofun
  · exact fun _ _ => rfl
  · show (s.list.map UserMapping.inHand).Perm (moved.map UserMapping.inHand ++ kept.map UserMapping.inHand)
    rw [← List.map_append]
    exact hlist.map _
  · simp [Custody.items, Custody.detach, hitems, hk]
  · exact Custody.items_others rfl
  · intro a ha
    have hnone : ¬ moved.any (·.addr == a) = true := by
      intro hany
      obtain ⟨m, hm, hma⟩ := List.any_eq_true.mp hany
      exact ha (List.mem_map.mpr ⟨m.inHand, List.mem_map_of_mem hm, beq_iff_eq.mp hma⟩)
    exact if_neg hnone
  · intro h hh
    obtain ⟨m, hm, rfl⟩ := List.mem_map.mp hh
    have hany : moved.any (·.addr == m.inHand.addr) = true :=
      List.any_eq_true.mpr ⟨m, hm, beq_self_eq_true m.addr⟩
    exact if_pos hany

/-- Listing a finished record moves it from the thread to the mapping list. -/
theorem Custody.Sound.insert {s : Custody} {t : Tid} {m : UserMapping} (hs : s.Sound)
    (hk : s.work t = { held := some ⟨m.addr, some m.process, false⟩ }) :
    Custody.Sound { s.give t {} with
      list := s.list ++ [m], pool := Function.update s.pool m.addr (some .listed) } := by
  apply Allotted.move placeOf_holder hs (i := some t) (j := none)
    (x := ⟨m.addr, some m.process, false⟩) (y := m.inHand) nofun rfl
  · simp [Custody.items, hk]
  · simp only [Custody.items, List.map_append, List.map_cons, List.map_nil]
    exact List.perm_append_singleton ..
  · exact fun i hit hi => Custody.items_others (t := t) rfl i hi hit

/-- Every operation leaves every block with one holder. -/
theorem Handling.sound {t : Tid} {s s' : Custody} {o : Op} {x : o.Ans} (h : Handling t s o x s')
    (hs : s.Sound) : s'.Sound := by
  cases h with
  | spares => exact hs
  | noBlock => exact hs
  | notInserted => exact hs
  | notFound => exact hs
  | alloc a hk hnone =>
    apply Allotted.put hs (x := { addr := a }) (i := some t) hnone
    · simp [Custody.items, hk]
    · exact Custody.items_other rfl rfl
  | reference p a hk =>
    apply Allotted.change placeOf_holder hs [] (x := { addr := a }) (y := ⟨a, some p, false⟩) (i := some t)
      rfl rfl
    · simp [Custody.items, hk]
    · simp [Custody.items]
    · exact Custody.items_other rfl rfl
  | dereference p a b ms hk =>
    apply Allotted.change placeOf_holder hs (ms.map UserMapping.inHand) (x := ⟨a, some p, b⟩)
      (y := ⟨a, none, b⟩) (i := some t) rfl rfl
    · simp [Custody.items, hk]
    · simp [Custody.items]
    · exact Custody.items_other rfl rfl
  | free a b ms hk =>
    apply Allotted.drop placeOf_holder hs (x := ⟨a, none, b⟩) (i := some t)
    · simp [Custody.items, hk]
    · exact Custody.items_other rfl rfl
  | insert m hk => exact hs.insert hk
  | append m hk => exact hs.insert hk
  | take fo va m hk hfound =>
    obtain ⟨as, bs, hlist, herase⟩ := eraseP_of_find? hfound
    apply hs.detach hk
    · rw [herase, hlist]
      exact List.perm_middle
    · rfl
  | sweepFile fo hk => exact hs.detach hk (List.filter_append_perm _ _).symm rfl
  | sweepAll hk => exact hs.detach hk (by simp) rfl
  | turn p hk =>
    unfold Custody.Sound
    rw [Custody.items_turn]
    exact hs

end TtWind
