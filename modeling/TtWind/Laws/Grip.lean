import TtWind.Laws.Work

/-!
# What a thread knows of the view in its hands

The process a thread is in, the one it attached from, and the view of the record it has in hand,
read off the history of its call beside `Work`. `Grip.allows` is the discipline of attaching and of
mapping: a thread attaches to another process than the one it is in, does nothing there but map or
unmap and detach, maps a view in the process of the record it builds, unmaps exactly the view its
record tells of, and lists a record only with that view made.
-/

set_option autoImplicit false

namespace TtWind

open TtWind.Effect TtWind.Effect.Prog

/-- What a record tells of its view, and a view of itself. The pages are those of an MDL. -/
structure Showing where
  addr : Nat
  process : Process
  va : UInt64
  frames : Option (List UInt64)
  deriving DecidableEq

namespace UserMapping

/-- The pages of the MDL, for a view made with one. -/
def frames (m : UserMapping) : Option (List UInt64) :=
  match m.kind with
  | .mdl => some ((m.mdl.map Mdl.pfns).getD [])
  | .sectionView => none

def showing (m : UserMapping) : Showing := ⟨m.addr, m.process, m.viewVa, m.frames⟩

end UserMapping

namespace Span

/-- The page frames a span shows; a view of the section shows none of the device. -/
def frames : Span → Option (List UInt64)
  | .pages pfns => some pfns
  | .range _ _ => none

end Span

namespace View

def showing (v : View) : Showing := ⟨v.addr, v.process, v.va, v.span.frames⟩

end View

/-- The records of a thread, the process it is in, the one it attached from, and the view of the
record in hand. -/
structure Grip extends Work where
  current : Option Process := none
  saved : Option Process := none
  view : Option Showing := none
  deriving DecidableEq

namespace Grip

/-- The process an operation leaves its thread in. -/
def nextCurrent : Event → Option Process → Option Process
  | ⟨.currentProcess, p⟩, _ => some p
  | ⟨.attach p, _⟩, _ => some p
  | ⟨.detach p, _⟩, _ => some p
  | _, current => current

/-- Attaching keeps where the thread came from, and detaching returns there. -/
def nextSaved : Event → Option Process → Option Process
  | ⟨.attach _, p⟩, _ => some p
  | ⟨.detach _, _⟩, _ => none
  | _, saved => saved

/-- The view of the record in hand, when the thread turns to the next record of its list. -/
def turnView (g : Grip) : Option Showing :=
  match g.held, g.list with
  | none, m :: _ => some m.showing
  | _, _ => g.view

/-- Mapping makes the view of the record in hand, and unmapping takes it away. -/
def nextView : Event → Grip → Option Showing
  | ⟨.mapLockedPages m _ addr, .ok va⟩, g => g.current.map (⟨addr, ·, va, some m.pfns⟩)
  | ⟨.mapView _ _ addr, .ok va⟩, g => g.current.map (⟨addr, ·, va, none⟩)
  | ⟨.unmapLockedPages _ _, _⟩, _ => none
  | ⟨.unmapView _, _⟩, _ => none
  | ⟨.freePool _, _⟩, _ => none
  | ⟨.locked (.insertMapping _), true⟩, _ => none
  | ⟨.locked (.appendMapping _), _⟩, _ => none
  | ⟨.locked (.takeMapping _ _), some m⟩, _ => some m.showing
  | ⟨.currentProcess, _⟩, g => g.turnView
  | _, g => g.view

/-- What the operations make of it. -/
def next (ev : Event) (g : Grip) : Grip where
  toWork := g.toWork.next ev
  current := nextCurrent ev g.current
  saved := nextSaved ev g.saved
  view := nextView ev g

/-- The view in hand is in the current process, at this address, and made with an MDL or not. -/
def Holds (g : Grip) (va : UInt64) (device : Bool) : Prop :=
  ∃ s, g.view = some s ∧ g.current = some s.process ∧ s.va = va ∧ s.frames.isSome = device

/-- The operations a thread may perform. -/
def allows (g : Grip) : Op → Prop
  | .attach p => g.saved = none ∧ ∃ q, g.current = some q ∧ q ≠ p
  | .detach p => g.saved = some p
  | .mapLockedPages _ _ a | .mapView _ _ a =>
    g.view = none ∧ ∃ p, g.current = some p ∧ g.held = some ⟨a, some p, false⟩
  | .unmapLockedPages va _ => g.Holds va true
  | .unmapView va => g.Holds va false
  | .locked (.insertMapping m) | .locked (.appendMapping m) => g.saved = none ∧ g.view = some m.showing
  | _ => g.saved = none

/-- Attached to another process a thread maps, unmaps or detaches. -/
theorem allows_away {g : Grip} {o : Op} {home : Process} (hsaved : g.saved = some home) (h : g.allows o) :
    o.movesViews ∨ o = .detach home := by
  have hno : g.saved ≠ none := by simp [hsaved]
  cases o with
  | detach p =>
    have hp : g.saved = some p := h
    exact .inr (by rw [Option.some.inj (hp.symm.trans hsaved)])
  | mapLockedPages m wc a => exact .inl trivial
  | mapView b n a => exact .inl trivial
  | unmapLockedPages va m => exact .inl trivial
  | unmapView va => exact .inl trivial
  | attach p => exact absurd h.1 hno
  | locked s =>
    cases s with
    | insertMapping m => exact absurd h.1 hno
    | appendMapping m => exact absurd h.1 hno
    | _ => exact absurd h hno
  | _ => exact absurd h hno

/-- After a history. -/
def after (evs : List Event) : Grip := evs.foldr next {}

/-- The automaton carries that of `Work` along. -/
theorem after_toWork (evs : List Event) : (after evs).toWork = Work.after evs := by
  induction evs with
  | nil => rfl
  | cons ev evs ih =>
    show Work.next ev (after evs).toWork = Work.next ev (Work.after evs)
    rw [ih]

/-- These records, this view, and attached to no process. -/
structure Has (k : Work) (v : Option Showing) (g : Grip) : Prop where
  work : g.toWork = k
  saved : g.saved = none
  view : g.view = v

/-- A call begins with nothing in hand. -/
theorem has_start : Has {} none {} := ⟨rfl, rfl, rfl⟩

end Grip

/-! ## Operations that leave the view alone -/

namespace Op

/-- Operations that map or unmap a view, or change the process a thread is in. -/
def handlesViews : Op → Prop
  | .mapLockedPages _ _ _ | .unmapLockedPages _ _ | .mapView _ _ _ | .unmapView _ | .attach _ | .detach _ => True
  | _ => False

/-- Operations that leave records and views alone. -/
def sparesViews (o : Op) : Prop := o.sparesHeld ∧ ¬ o.handlesViews

theorem sparesViews_of_plain {o : Op} (h : o.plain) : o.sparesViews := by
  refine ⟨sparesHeld_of_plain h, fun hmoves => ?_⟩
  cases o <;> first | exact (h : False).elim | exact (hmoves : False).elim

end Op

/-- From here on, the program keeps to the discipline, and returns as stated. -/
abbrev Grips {α : Type} (g : Grip) (Q : Grip → α → Prop) (p : Drv α) : Prop :=
  p.Follows (S := DriverSig) Grip.allows Grip.next Q g

/-- From nothing in hand, the program returns with nothing in hand. -/
abbrev Settles {α : Type} (p : Drv α) : Prop :=
  ∀ g, Grip.Has {} none g → Grips g (fun g' _ => Grip.Has {} none g') p

namespace Grip

variable {g : Grip} {k : Work} {v : Option Showing} {o : Op}

/-- With no list to turn to, the view stays. -/
theorem turnView_of_nil (hg : g.list = []) : g.turnView = g.view := by
  unfold turnView
  split
  · rename_i hlist
    rw [hg] at hlist
    cases hlist
  · rfl

/-- Operations that touch no view are allowed with any in hand. -/
theorem Has.allows (h : Has k v g) (ho : o.sparesViews) : g.allows o := by
  obtain ⟨hheld, hmoves⟩ := ho
  cases o with
  | locked s =>
    have hs : s.LeavesList := by
      rcases hheld with hs | hs
      · exact hs
      · cases hs
    cases s <;> first | exact h.saved | exact (hs : False).elim
  | attach p => exact (hmoves trivial).elim
  | detach p => exact (hmoves trivial).elim
  | mapLockedPages m wc a => exact (hmoves trivial).elim
  | mapView start size a => exact (hmoves trivial).elim
  | unmapLockedPages va m => exact (hmoves trivial).elim
  | unmapView va => exact (hmoves trivial).elim
  | _ => exact h.saved

theorem next_of_spares (ho : o.sparesRecords) (hmoves : ¬ o.handlesViews) (x : o.Ans) (g : Grip) :
    g.next ⟨o, x⟩ = g := by
  have hwork : g.toWork.next ⟨o, x⟩ = g.toWork := ho.next x _
  unfold next
  rw [hwork]
  cases o with
  | locked s => cases s <;> first | rfl | exact (ho : False).elim
  | attach p => exact (hmoves trivial).elim
  | detach p => exact (hmoves trivial).elim
  | mapLockedPages m wc a => exact (hmoves trivial).elim
  | mapView start size a => exact (hmoves trivial).elim
  | unmapLockedPages va m => exact (hmoves trivial).elim
  | unmapView va => exact (hmoves trivial).elim
  | freePool a => exact (ho : False).elim
  | currentProcess => exact (ho : False).elim
  | _ => rfl

/-- Asking for the current process, with no private list, tells the thread where it is. -/
theorem next_currentProcess (hg : g.list = []) (p : Process) :
    g.next ⟨.currentProcess, p⟩ = { g with current := some p } := by
  have hwork : g.toWork.next ⟨.currentProcess, p⟩ = g.toWork :=
    (g.toWork.next_currentProcess p).trans (Work.turn_of_nil hg)
  unfold next
  rw [hwork]
  show Grip.mk g.toWork (some p) g.saved g.turnView = _
  rw [turnView_of_nil hg]

/-- They leave it in hand. -/
theorem Has.next (h : Has k v g) (hk : k.list = []) (ho : o.sparesViews) (x : o.Ans) : Has k v (g.next ⟨o, x⟩) := by
  obtain ⟨hspares | rfl, hmoves⟩ := ho
  · rw [next_of_spares hspares hmoves]
    exact h
  · have hg : g.list = [] := by rw [h.work, hk]
    rw [next_currentProcess hg]
    exact ⟨h.work, h.saved, h.view⟩

end Grip

section Programs

variable {α : Type} {k : Work} {v : Option Showing} {g : Grip}

/-- So does code made of them. -/
theorem grips_of_spares {p : Drv α} (hp : p.Only Op.sparesViews) (hk : k.list = []) (hg : Grip.Has k v g) :
    Grips g (fun g' _ => Grip.Has k v g') p :=
  hp.follows_keeping hg (fun _ _ h ho => h.allows ho) fun _ _ x h ho => h.next hk ho x

theorem settles_of_spares {p : Drv α} (hp : p.Only Op.sparesViews) : Settles p :=
  fun _ hg => grips_of_spares hp rfl hg

/-- Code that settles, one part after the other. -/
theorem Settles.bind {β : Type} {p : Drv α} {f : α → Drv β} (hp : Settles p) (hf : ∀ a, Settles (f a)) :
    Settles (p >>= f) :=
  fun g hg => (hp g hg).bind fun g' a hg' => hf a g' hg'

/-! ## Attaching, mapping and unmapping -/

/-- In the process, attached from another one or not. -/
structure Grip.Within (k : Work) (v : Option Showing) (p : Process) (saved : Option Process) (g : Grip) : Prop where
  work : g.toWork = k
  view : g.view = v
  current : g.current = some p
  saved : g.saved = saved

/-- Attaching leads into the process of the record. -/
theorem grips_attachTo (hk : k.list = []) (hg : Grip.Has k v g) (p : Process) :
    Grips g (fun g' saved => Grip.Within k v p saved g') (attachTo p) := by
  refine ⟨hg.saved, fun q => ?_⟩
  have hlist : g.list = [] := by rw [hg.work, hk]
  rw [Grip.next_currentProcess hlist]
  apply Follows.ite
  · intro hne
    exact ⟨⟨hg.saved, q, rfl, Ne.symm hne⟩, fun old => ⟨hg.work, hg.view, rfl, rfl⟩⟩
  · intro heq
    obtain rfl : p = q := not_not.mp heq
    exact ⟨hg.work, hg.view, rfl, hg.saved⟩

/-- Detaching leads back. -/
theorem grips_detachFrom {p : Process} {saved : Option Process} (hg : Grip.Within k v p saved g) :
    Grips g (fun g' _ => Grip.Has k v g') (detachFrom saved) := by
  cases saved with
  | none => exact ⟨hg.work, hg.saved, hg.view⟩
  | some old => exact ⟨hg.saved, fun _ => ⟨hg.work, rfl, hg.view⟩⟩

/-- One operation in the process of a record, which makes a view of it or does not. -/
theorem grips_inProcess {β : Type} {o : Op} {p : Process} (made : o.Ans → Option Showing)
    (hallows : ∀ saved g, Grip.Within k v p saved g → g.allows o)
    (hnext : ∀ saved g x, Grip.Within k v p saved g → Grip.Within k (made x) p saved (g.next ⟨o, x⟩))
    {f : o.Ans → Drv β} {Q : Grip → β → Prop} (hf : ∀ x g, Grip.Has k (made x) g → Grips g Q (f x))
    (hk : k.list = []) (hg : Grip.Has k v g) :
    Grips g Q (do
      let saved ← attachTo p
      let x ← op o
      detachFrom saved
      f x) := by
  apply (grips_attachTo hk hg p).bind
  intro g₁ saved hg₁
  refine ⟨hallows saved g₁ hg₁, fun x => ?_⟩
  apply (grips_detachFrom (hnext saved g₁ x hg₁)).bind
  intro g₂ _ hg₂
  exact hf x g₂ hg₂

/-- The block of a record under construction. -/
def Work.building (addr : Nat) (p : Process) : Work := { held := some ⟨addr, some p, false⟩ }

/-- The view an attempt to map has made. -/
def madeView (addr : Nat) (p : Process) (frames : Option (List UInt64)) : Except NtStatus UInt64 → Option Showing
  | .error _ => none
  | .ok va => some ⟨addr, p, va, frames⟩

/-- In the process of the record under construction, a thread may map its view. -/
theorem Grip.Within.mayMap {addr : Nat} {p : Process} {saved : Option Process}
    (hg : Grip.Within (.building addr p) none p saved g) :
    g.view = none ∧ ∃ q, g.current = some q ∧ g.held = some ⟨addr, some q, false⟩ := by
  refine ⟨hg.view, p, hg.current, ?_⟩
  rw [hg.work]
  rfl

/-- An attempt that changes nothing but the view leaves the view it has made. -/
theorem Grip.Within.mapped {addr : Nat} {p : Process} {saved : Option Process} {frames : Option (List UInt64)}
    {x : Except NtStatus UInt64} {g' : Grip} (hg : Grip.Within (.building addr p) none p saved g)
    (hview : g'.view = match x with
      | .error _ => g.view
      | .ok va => g.current.map (⟨addr, ·, va, frames⟩))
    (hwork : g'.toWork = g.toWork) (hcurrent : g'.current = g.current) (hsaved : g'.saved = g.saved) :
    Grip.Within (.building addr p) (madeView addr p frames x) p saved g' := by
  refine ⟨hwork.trans hg.work, ?_, hcurrent.trans hg.current, hsaved.trans hg.saved⟩
  rw [hview, hg.view, hg.current]
  cases x <;> rfl

/-- Mapping device pages makes the view of the record that is being built, or fails and makes none. -/
theorem grips_mapIoToUser {p : Process} {addr : Nat} (phys length : UInt64) (wc : Bool)
    (hg : Grip.Has (.building addr p) none g) :
    Grips g (fun g' r => Grip.Has (.building addr p)
      (match r with | .error _ => none | .ok (mdl, va) => some ⟨addr, p, va, some mdl.pfns⟩) g')
      (mapIoToUser phys length wc p addr) := by
  refine ⟨hg.saved, fun allocated => ?_⟩
  have hg : Grip.Has (.building addr p) none (g.next ⟨.allocMdl phys length.toUInt32, allocated⟩) :=
    ⟨hg.work, hg.saved, hg.view⟩
  refine Follows.ite (fun _ => follows_pure hg) fun _ => ?_
  apply grips_inProcess (madeView addr p (some (mdlOf phys length).pfns)) _ _ _ rfl hg
  · intro saved g hg
    exact hg.mayMap
  · intro saved g x hg
    refine hg.mapped ?_ rfl rfl rfl
    cases x <;> rfl
  · intro r g hg
    cases r with
    | error s => exact ⟨hg.saved, fun _ => ⟨hg.work, hg.saved, hg.view⟩⟩
    | ok va => exact hg

/-- Mapping the section does so too. -/
theorem grips_mapSysmemToUser {p : Process} {addr : Nat} (phys length : UInt64)
    (hg : Grip.Has (.building addr p) none g) :
    Grips g (fun g' r => Grip.Has (.building addr p)
      (match r with | .error _ => none | .ok (base, _) => some ⟨addr, p, base, none⟩) g')
      (mapSysmemToUser phys length p addr) := by
  refine ⟨hg.saved, fun status => ?_⟩
  have hg : Grip.Has (.building addr p) none (g.next ⟨.openSection, status⟩) := ⟨hg.work, hg.saved, hg.view⟩
  refine Follows.ite (fun _ => follows_pure hg) fun _ => ?_
  apply grips_inProcess (madeView addr p none) _ _ _ rfl hg
  · intro saved g hg
    exact hg.mayMap
  · intro saved g x hg
    refine hg.mapped ?_ rfl rfl rfl
    cases x <;> rfl
  · intro r g hg
    refine ⟨hg.saved, fun _ => ?_⟩
    cases r with
    | error s => exact ⟨hg.work, hg.saved, hg.view⟩
    | ok va => exact ⟨hg.work, hg.saved, hg.view⟩

/-- In the process of the view, a record unmaps it. -/
theorem grips_unmapUserView {m : UserMapping} (hv : g.view = some m.showing) (hc : g.current = some m.process) :
    Grips g (fun g' _ => g'.toWork = g.toWork ∧ g'.saved = g.saved) (unmapUserView m) := by
  unfold unmapUserView
  cases hkind : m.kind with
  | sectionView =>
    refine ⟨⟨m.showing, hv, hc, ?_, ?_⟩, fun _ => ⟨rfl, rfl⟩⟩
    · simp [UserMapping.showing, UserMapping.viewVa, hkind]
    · simp [UserMapping.showing, UserMapping.frames, hkind]
  | mdl =>
    refine ⟨⟨m.showing, hv, hc, ?_, ?_⟩, fun _ => ⟨rfl, rfl⟩⟩
    · simp [UserMapping.showing, UserMapping.viewVa, hkind]
    · simp [UserMapping.showing, UserMapping.frames, hkind]

/-- The view is unmapped, or its process has begun to terminate. -/
theorem grips_teardownView {m : UserMapping} (hsaved : g.saved = none) (hv : g.turnView = some m.showing) :
    Grips g (fun g' _ => g'.toWork = g.toWork.turn ∧ g'.saved = none) (teardownView m) := by
  refine ⟨hsaved, fun q => ?_⟩
  have hwork : (g.next ⟨.currentProcess, q⟩).toWork = g.toWork.turn := g.toWork.next_currentProcess q
  refine Follows.ite (fun heq => ?_) fun hne => ?_
  · apply (grips_unmapUserView hv (congrArg some heq.symm)).mono
    rintro g' _ ⟨hwork', hsaved'⟩
    exact ⟨hwork'.trans hwork, hsaved'.trans hsaved⟩
  · refine ⟨hsaved, fun pending => ?_⟩
    refine Follows.ite (fun _ => ?_) fun _ => follows_pure ⟨hwork, hsaved⟩
    refine ⟨⟨hsaved, q, rfl, Ne.symm hne⟩, fun saved => ?_⟩
    apply (grips_unmapUserView (m := m) hv rfl).bind
    rintro g' _ ⟨hwork', hsaved'⟩
    exact ⟨hsaved', fun _ => ⟨hwork'.trans hwork, rfl⟩⟩

/-- A record in hand is destroyed, view and block. -/
theorem grips_destroyMapping {m : UserMapping} {b : Bool} {ms : List UserMapping} (hsaved : g.saved = none)
    (hturn : g.toWork.turn = ⟨some ⟨m.addr, some m.process, b⟩, ms⟩) (hv : g.turnView = some m.showing) :
    Grips g (fun g' _ => Grip.Has ⟨none, ms⟩ none g') (destroyMapping m) := by
  apply (grips_teardownView hsaved hv).bind
  rintro g₁ _ ⟨hwork, hsaved⟩
  rw [hturn] at hwork
  have hfree : (freeMdlOf m.mdl).Follows (S := DriverSig) Grip.allows Grip.next (fun g' _ => g' = g₁) g₁ := by
    cases m.mdl with
    | none => exact rfl
    | some mdl => exact ⟨hsaved, fun _ => rfl⟩
  apply hfree.still
  intro _
  refine ⟨hsaved, fun _ => ⟨hsaved, fun _ => ⟨?_, hsaved, rfl⟩⟩⟩
  show (g₁.toWork.next ⟨.dereferenceProcess m.process, ()⟩).next ⟨.freePool m.addr, ()⟩ = _
  rw [hwork]
  rfl

/-- A private list is destroyed to its end. -/
theorem grips_destroyAll (ms : List UserMapping) (hg : Grip.Has ⟨none, ms⟩ none g) :
    Grips g (fun g' _ => Grip.Has {} none g') (destroyAll ms) := by
  induction ms generalizing g with
  | nil => exact hg
  | cons m ms ih =>
    obtain ⟨hwork, hsaved, -⟩ := hg
    have hheld : g.held = none := by rw [hwork]
    have hlist : g.list = m :: ms := by rw [hwork]
    have hturn : g.toWork.turn = ⟨some ⟨m.addr, some m.process, true⟩, ms⟩ := by
      rw [hwork]
      rfl
    apply (grips_destroyMapping hsaved hturn _).bind
    · intro g' _ hg'
      exact ih hg'
    · unfold Grip.turnView
      rw [hheld, hlist]

/-! ## The ioctls that make and destroy mappings -/

theorem viewingScope_silent : ∀ o : Op, o.silent → o.sparesViews := fun _ ho => Op.sparesViews_of_plain ho.plain

theorem mappingProcess_spares : mappingProcess.Only Op.sparesViews := by
  refine ⟨viewingScope_silent _ trivial, fun r _ => ?_⟩
  cases r with
  | none => exact (within_perform _).mpr (viewingScope_silent _ trivial)
  | some p => trivial

/-- A record that got no view is given back. -/
theorem grips_giveBack {β : Type} {p : Process} {addr : Nat} {Q : Grip → β → Prop} {rest : Drv β}
    (hg : Grip.Has (.building addr p) none g) (hrest : ∀ g', Grip.Has {} none g' → Grips g' Q rest) :
    Grips g Q (do
      op (.dereferenceProcess p)
      op (.freePool addr)
      rest) := by
  refine ⟨hg.saved, fun _ => ⟨hg.saved, fun _ => hrest _ ⟨?_, hg.saved, rfl⟩⟩⟩
  show (g.toWork.next ⟨.dereferenceProcess p, ()⟩).next ⟨.freePool addr, ()⟩ = _
  rw [hg.work]
  rfl

/-- From a block just allocated to one that holds a process. -/
theorem Grip.Has.reference {addr : Nat} (hg : Grip.Has {} none g) (p : Process) :
    Grip.Has (.building addr p) none ((g.next ⟨.allocPool, some addr⟩).next ⟨.referenceProcess p, ()⟩) := by
  refine ⟨?_, hg.saved, hg.view⟩
  show (g.toWork.next ⟨.allocPool, some addr⟩).next ⟨.referenceProcess p, ()⟩ = _
  rw [hg.work]
  rfl

/-- A record that is listed is out of hand, with its view. -/
theorem Grip.Has.inserted {m : UserMapping} (hg : Grip.Has (.building m.addr m.process) v g) :
    Grip.Has {} none (g.next ⟨.locked (.insertMapping m), true⟩) := by
  refine ⟨?_, hg.saved, rfl⟩
  show g.toWork.next ⟨.locked (.insertMapping m), true⟩ = _
  rw [hg.work]
  rfl

theorem Grip.Has.appended {m : UserMapping} (hg : Grip.Has (.building m.addr m.process) v g) :
    Grip.Has {} none (g.next ⟨.locked (.appendMapping m), ()⟩) := by
  refine ⟨?_, hg.saved, rfl⟩
  show g.toWork.next ⟨.locked (.appendMapping m), ()⟩ = _
  rw [hg.work]
  rfl

/-- A record in hand, on its own, is destroyed. -/
theorem grips_destroyHeld {m : UserMapping} {b : Bool}
    (hg : Grip.Has { held := some ⟨m.addr, some m.process, b⟩ } (some m.showing) g) :
    Grips g (fun g' _ => Grip.Has {} none g') (destroyMapping m) := by
  apply grips_destroyMapping hg.saved
  · rw [hg.work]
    rfl
  · rw [Grip.turnView_of_nil (by rw [hg.work])]
    exact hg.view

/-- A record that was not inserted is still in hand. -/
theorem grips_backOut {m : UserMapping} (hg : Grip.Has (.building m.addr m.process) (some m.showing) g) :
    Grips (g.next ⟨.locked (.insertMapping m), false⟩) (fun g' _ => Grip.Has {} none g') (destroyMapping m) := by
  apply grips_destroyHeld (b := false)
  exact ⟨hg.work, hg.saved, hg.view⟩

/-- Building a mapping lists it, or tears down what was made of it. -/
theorem createUserMapping_settles (fileObject : Option FileObject) (phys length : UInt64) (cacheMode : UInt32)
    (tlbId : Int) : Settles (createUserMapping fileObject phys length cacheMode tlbId) := by
  intro g hg
  cases fileObject with
  | none => exact hg
  | some fo =>
    apply (grips_of_spares mappingProcess_spares rfl hg).bind
    intro g p hg
    refine ⟨hg.saved, fun addr => ?_⟩
    cases addr with
    | none => exact ⟨hg.work, hg.saved, hg.view⟩
    | some addr =>
      refine ⟨hg.saved, fun _ => ?_⟩
      apply (grips_mapIoToUser phys length _ (hg.reference p)).bind
      rintro g r hg
      cases r with
      | error s => exact grips_giveBack hg fun g' hg' => hg'
      | ok r =>
        obtain ⟨mdl, va⟩ := r
        refine ⟨⟨hg.saved, hg.view⟩, fun inserted => ?_⟩
        cases inserted with
        | true => exact hg.inserted
        | false =>
          apply (grips_backOut hg).bind
          intro g' _ hg'
          exact hg'

/-- A record taken off the mapping list. -/
theorem Grip.Has.taken {fo : FileObject} {va : UInt64} {m : UserMapping} (hg : Grip.Has {} none g) :
    Grip.Has { held := some m.inHand } (some m.showing) (g.next ⟨.locked (.takeMapping fo va), some m⟩) := by
  refine ⟨?_, hg.saved, rfl⟩
  show g.toWork.next ⟨.locked (.takeMapping fo va), some m⟩ = _
  rw [hg.work]
  rfl

theorem settles_pure (a : α) : Settles (Pure.pure a : Drv α) := fun _ hg => hg

theorem settles_perform {o : Op} {f : o.Ans → Drv α} (ho : o.sparesViews) (hf : ∀ x, Settles (f x)) :
    Settles (op o >>= f) :=
  Settles.bind (settles_of_spares ((within_perform _).mpr ho)) hf

theorem Settles.ite {c : Prop} [Decidable c] {p q : Drv α} (hp : Settles p) (hq : Settles q) :
    Settles (if c then p else q) := by
  split
  · exact hp
  · exact hq

theorem settles_plain {o : Op} {f : o.Ans → Drv α} (ho : o.plain) (hf : ∀ x, Settles (f x)) :
    Settles (op o >>= f) := settles_perform (Op.sparesViews_of_plain ho) hf

/-- Each handler that makes or destroys mappings settles. -/
theorem ioctlMapBar_settles (fileObject : Option FileObject) : Settles (ioctlMapBar fileObject) := by
  refine settles_plain trivial fun status => Settles.ite (settles_pure _) ?_
  refine settles_plain trivial fun status => Settles.ite (settles_pure _) ?_
  refine settles_plain trivial fun c => settles_plain trivial fun _ => settles_plain trivial fun _ => ?_
  refine settles_plain trivial fun _ => settles_plain trivial fun _ => Settles.ite (settles_pure _) ?_
  refine Settles.bind (createUserMapping_settles fileObject _ _ _ _) fun r => ?_
  cases r with
  | error status => exact settles_pure _
  | ok userVa =>
    refine settles_plain trivial fun _ => settles_plain trivial fun _ => ?_
    exact settles_plain trivial fun _ => settles_plain trivial fun _ => settles_pure _

theorem ioctlUnmapBar_settles (fileObject : Option FileObject) : Settles (ioctlUnmapBar fileObject) := by
  cases fileObject with
  | none => exact settles_pure _
  | some fo =>
    refine settles_plain trivial fun status => Settles.ite (settles_pure _) ?_
    refine settles_plain trivial fun va => ?_
    intro g hg
    refine ⟨hg.saved, fun found => ?_⟩
    cases found with
    | none => exact ⟨hg.work, hg.saved, hg.view⟩
    | some m =>
      apply (grips_destroyHeld hg.taken).bind
      intro g' _ hg'
      exact hg'

theorem ioctlMapTlb_settles (fileObject : Option FileObject) : Settles (ioctlMapTlb fileObject) := by
  cases fileObject with
  | none => exact settles_pure _
  | some fo =>
    refine settles_plain trivial fun status => Settles.ite (settles_pure _) ?_
    refine settles_plain trivial fun status => Settles.ite (settles_pure _) ?_
    refine settles_plain trivial fun mode => Settles.ite (settles_pure _) ?_
    refine settles_plain trivial fun tlbId => settles_perform ⟨.inl trivial, id⟩ fun status => ?_
    refine Settles.ite (settles_pure _) ?_
    refine settles_plain trivial fun c => Settles.ite (settles_pure _) ?_
    refine Settles.bind (createUserMapping_settles (some fo) _ _ _ _) fun r => ?_
    cases r with
    | error status => exact settles_pure _
    | ok userVa => exact settles_plain trivial fun _ => settles_plain trivial fun _ => settles_pure _

theorem ioctlMapSysmem_settles (fileObject : Option FileObject) : Settles (ioctlMapSysmem fileObject) := by
  have hlock : ∀ {o : Op} {f : o.Ans → Drv (NtStatus × Nat)}, o = .acquire .arc ∨ o = .release .arc →
      (∀ x, Settles (f x)) → Settles (op o >>= f) := by
    rintro o f (rfl | rfl) hf
    · exact settles_perform ⟨.inl trivial, id⟩ hf
    · exact settles_perform ⟨.inl trivial, id⟩ hf
  cases fileObject with
  | none => exact settles_pure _
  | some fo =>
    refine settles_plain trivial fun status => Settles.ite (settles_pure _) ?_
    refine settles_plain trivial fun status => Settles.ite (settles_pure _) ?_
    refine settles_plain trivial fun _ => settles_plain trivial fun _ => Settles.ite (settles_pure _) ?_
    refine hlock (.inl rfl) fun _ => settles_plain trivial fun c => hlock (.inr rfl) fun _ => ?_
    refine Settles.ite (settles_pure _) (settles_plain trivial fun c => Settles.ite (settles_pure _) ?_)
    refine Settles.bind (settles_of_spares mappingProcess_spares) fun p => ?_
    intro g hg
    refine ⟨hg.saved, fun addr => ?_⟩
    cases addr with
    | none => exact ⟨hg.work, hg.saved, hg.view⟩
    | some addr =>
      refine ⟨hg.saved, fun _ => ⟨hg.saved, fun c => ?_⟩⟩
      apply (grips_mapSysmemToUser _ _ (hg.reference p)).bind
      rintro g r hg
      cases r with
      | error s => exact grips_giveBack hg fun g' hg' => hg'
      | ok r =>
        obtain ⟨base, va⟩ := r
        refine ⟨⟨hg.saved, hg.view⟩, fun _ => ?_⟩
        apply grips_of_spares _ rfl hg.appended
        have hplain : ∀ o : Op, o.plain → o.sparesViews := fun _ => Op.sparesViews_of_plain
        refine ⟨hplain _ trivial, fun _ _ => ⟨hplain _ trivial, fun _ _ => ⟨hplain _ trivial, fun _ _ => ?_⟩⟩⟩
        exact ⟨hplain _ trivial, fun _ _ => trivial⟩

/-! ## Every call -/

/-- The other programs touch no view. -/
theorem deviceFoot_sparesViews {l : Lock} {o : Op} (h : deviceFoot l o) : o.sparesViews := by
  refine ⟨deviceFoot_sparesHeld h, fun hmoves => ?_⟩
  cases o <;> first | exact (hmoves : False).elim | exact (h : False).elim

theorem resetFoot_sparesViews {o : Op} (h : resetFoot Section.LeavesList o) : o.sparesViews := by
  refine ⟨resetFoot_sparesHeld h, fun hmoves => ?_⟩
  cases o <;> first | exact (hmoves : False).elim | exact (h : False).elim

theorem prepareFoot_sparesViews {o : Op} (h : prepareFoot o) : o.sparesViews := by
  refine ⟨prepareFoot_sparesHeld h, fun hmoves => ?_⟩
  cases o <;> first | exact (hmoves : False).elim | exact (h : False).elim

theorem windowScope_sparesViews (fileObject : Option FileObject) : WindowScope fileObject Op.sparesViews where
  plain _ := Op.sparesViews_of_plain
  allocate _ _ := ⟨.inl trivial, id⟩
  free _ _ _ := ⟨.inl trivial, id⟩

theorem hardwareScope_sparesViews : HardwareScope Op.sparesViews where
  silent _ ho := Op.sparesViews_of_plain ho.plain
  store _ hf _ _ _ := ⟨.inl hf.table, id⟩
  queryInterface := ⟨.inl trivial, id⟩
  dereferenceInterface := ⟨.inl trivial, id⟩
  allocContiguous _ _ _ := ⟨.inl trivial, id⟩
  bufferZero _ := ⟨.inl trivial, id⟩

theorem noOutput_settles {p : Drv NtStatus} (hp : Settles p) : Settles (noOutput p) :=
  hp.bind fun _ => settles_pure _

/-- Every handler settles. -/
theorem ioctlHandler_settles (fileObject : Option FileObject) (code : Ioctl) :
    Settles (ioctlHandler fileObject code) := by
  have harc : ∀ {α : Type} {p : Drv α} {l : Lock}, p.Only (deviceFoot l) → Settles p :=
    fun hp => settles_of_spares (hp.mono fun _ => deviceFoot_sparesViews)
  have hreset : ∀ {α : Type} {p : Drv α}, p.Only (resetFoot Section.LeavesList) → Settles p :=
    fun hp => settles_of_spares (hp.mono fun _ => resetFoot_sparesViews)
  cases code with
  | getDeviceInfo => exact settles_of_spares (getDeviceInfo_only fun _ => Op.sparesViews_of_plain)
  | mapBar => exact ioctlMapBar_settles _
  | unmapBar => exact noOutput_settles (ioctlUnmapBar_settles _)
  | allocateTlb => exact settles_of_spares (ioctlAllocateTlb_only (windowScope_sparesViews _))
  | freeTlb => exact noOutput_settles (settles_of_spares (ioctlFreeTlb_only (windowScope_sparesViews _)))
  | configureTlb => exact noOutput_settles (harc (ioctlConfigureTlb_only _))
  | mapTlb => exact ioctlMapTlb_settles _
  | smcMsg => exact harc ioctlSmcMsg_only
  | resetDevice => exact noOutput_settles (hreset (resetDevice_only trivial trivial _))
  | arcStatus => exact harc ioctlArcStatus_only
  | postReset => exact noOutput_settles (hreset ioctlPostReset_only)
  | querySysmem => exact harc (ioctlQuerySysmem_only (fun _ => deviceFoot_of_plain) rfl rfl)
  | mapSysmem => exact ioctlMapSysmem_settles _
  | sysmemStatus => exact harc ioctlSysmemStatus_only
  | other => exact settles_pure _

theorem evtIoDeviceControl_settles (fileObject : Option FileObject) (code : Ioctl) :
    Settles (evtIoDeviceControl fileObject code) := by
  have hstale : (isStale fileObject).Only Op.sparesViews :=
    isStale_only ⟨.inl trivial, id⟩ (fun _ => ⟨.inl trivial, id⟩) fileObject
  have hdone : ∀ s n, Settles (op (.complete s n)) := fun s n => settles_of_spares
    ((within_perform _).mpr (Op.sparesViews_of_plain trivial))
  refine Settles.bind (settles_of_spares hstale) fun stale => Settles.ite (hdone _ _) ?_
  refine settles_plain trivial fun c => Settles.ite (hdone _ _) ?_
  exact Settles.bind (ioctlHandler_settles fileObject code) fun r => hdone _ _

/-- Cleanup and revocation destroy what they took, one after the other. -/
theorem evtFileCleanup_settles (fo : FileObject) : Settles (evtFileCleanup fo) := by
  intro g hg
  refine ⟨hg.saved, fun ms => grips_destroyAll ms ⟨?_, hg.saved, hg.view⟩⟩
  show g.toWork.next ⟨.locked (.sweepFile fo), ms⟩ = _
  rw [hg.work]
  rfl

theorem revokeAllMappings_settles : Settles revokeAllMappings := by
  intro g hg
  refine ⟨hg.saved, fun ms => grips_destroyAll ms ⟨?_, hg.saved, hg.view⟩⟩
  show g.toWork.next ⟨.locked .sweepAll, ms⟩ = _
  rw [hg.work]
  rfl

theorem evtDeviceReleaseHardware_settles : Settles evtDeviceReleaseHardware := by
  refine Settles.bind revokeAllMappings_settles fun _ => settles_of_spares ?_
  exact releaseResources_only hardwareScope_sparesViews (fun _ hf _ _ => ⟨.inl hf.table, id⟩)
    (fun _ => ⟨.inl trivial, id⟩) (fun _ => ⟨.inl trivial, id⟩) (fun _ _ => ⟨.inl trivial, id⟩)
    fun _ _ => ⟨.inl trivial, id⟩

/-- Every call keeps to the discipline, from nothing in hand to nothing in hand. -/
theorem World.Call.settles {w : World} {p : Drv Unit} {t : Tid} (h : w.Call p t) : Settles p := by
  cases t with
  | ioctl =>
    obtain ⟨code, rfl⟩ := h
    exact evtIoDeviceControl_settles _ code
  | power =>
    obtain ⟨cb, rfl⟩ := h
    exact settles_of_spares ((power_only cb).mono fun _ ho => deviceFoot_sparesViews (arcFoot_of_powerFoot ho))
  | hardware =>
    rcases h with ⟨resources, rfl⟩ | rfl
    · have hprepare := (evtDevicePrepareHardware_only resources).mono fun _ => prepareFoot_sparesViews
      exact Settles.bind (settles_of_spares hprepare) fun _ => settles_pure _
    · exact evtDeviceReleaseHardware_settles
  | create fo =>
    obtain rfl : p = evtDeviceFileCreate fo := h
    refine settles_perform ⟨.inl trivial, id⟩ fun _ => settles_perform ⟨.inl trivial, id⟩ fun _ => ?_
    exact settles_perform ⟨.inl trivial, id⟩ fun _ => settles_pure _
  | cleanup fo =>
    obtain rfl : p = evtFileCleanup fo := h
    exact evtFileCleanup_settles fo

namespace World

/-- What a thread knows of the view in its hands. -/
def grip (w : World) (t : Tid) : Grip := Grip.after (w.hist t)

/-- The same of a thread in a world. -/
theorem grip_toWork (w : World) (t : Tid) : (w.grip t).toWork = w.work t := Grip.after_toWork _

end World

/-- What a live thread is about to do, the view in its hands allows, and it ends with none. -/
theorem reach_grips {allow : Tid → Op → World → Prop} {c : DriverConfig} (h : Reach driver allow c)
    {t : Tid} {q : Drv Unit} (hq : c.pool t = some q) :
    Grips (c.world.grip t) (fun g _ => Grip.Has {} none g) q := by
  obtain ⟨p, hcall, hleads⟩ := reach_inCall h hq
  exact hleads.follows (hcall.settles {} Grip.has_start)

end Programs

end TtWind
