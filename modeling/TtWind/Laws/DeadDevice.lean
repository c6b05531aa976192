import TtWind.Effect.Fate
import TtWind.Laws.RingBounds

/-!
# A device that dies during an exchange

A device that has left the bus answers every register read with all ones. An exchange meets
such reads in five places: the boot status of the routes, the queue control block, the pointers
of the two rings, and the words of a response. `SendPhase` follows an exchange through them;
where the first dead read falls decides what the exchange returns.
-/

set_option autoImplicit false

namespace TtWind

open TtWind.Effect TtWind.Effect.Prog

/-! ## Where an exchange is -/

/-- The place of an exchange, read off what it has done. -/
inductive SendPhase where
  | start
  /-- Reading boot statuses: the poll rounds left after this one, and whether a route of this
  round was seen alive. -/
  | discovering (polls : Nat) (alive : Bool)
  /-- About to read the address of the queue control block. -/
  | pointer
  | queueBase
  | queueInfo (base : UInt32)
  /-- Draining and pushing. -/
  | ring (entries : UInt32)
  /-- About to read the read pointer of the response ring. -/
  | response (entries : UInt32)
  /-- About to read its write pointer. -/
  | writer (entries rptr : UInt32)
  /-- Reading the words of the response. -/
  | words
  deriving DecidableEq, Repr

/-- A route that answers this boot status is taken. -/
def bootReady (v : UInt32) : Bool := v != 0xFFFFFFFF && v &&& arcBootStatusReady != 0

namespace SendPhase

/-- After a register read. -/
def read : SendPhase → UInt32 → SendPhase
  | discovering polls alive, v =>
    if bootReady v then pointer else discovering polls (alive || v != 0xFFFFFFFF)
  | pointer, _ => queueBase
  | queueBase, v => queueInfo v
  | queueInfo _, v => ring (v &&& 0xFF)
  | response n, v => writer n v
  | writer n r, v => if (v - r) % (2 * n) = 0 then response n else words
  | s, _ => s

/-- After the clock was read for a deadline this many polls away. -/
def deadline : SendPhase → Nat → SendPhase
  | start, polls => discovering polls false
  | ring n, _ => response n
  | s, _ => s

/-- After the pause between two polls. -/
def stall : SendPhase → SendPhase
  | discovering (polls + 1) _ => discovering polls false
  | s => s

def next : Event → SendPhase → SendPhase
  | ⟨.mmioRead _ _, v⟩, s => s.read v
  | ⟨.deadline _, polls⟩, s => s.deadline polls
  | ⟨.stall _, _⟩, s => s.stall
  | _, s => s

/-- All ones read here are not taken for a dead device: by the last poll round once a route was
seen alive, as the address of the queue control block, as the queue's base, as its entry count
if a ring of 255 entries from its base is not aligned or not in the CSM, and as words of the
response. -/
def overlooks : SendPhase → Bool
  | discovering polls alive => polls == 0 && alive
  | pointer | queueBase | words => true
  | queueInfo base => !(base &&& 3 == 0 && ringFits base 0xFF)
  | _ => false

end SendPhase

/-- Where an exchange with this history is. -/
def sendPhase (evs : List Event) : SendPhase := evs.foldr SendPhase.next .start

def allOnes : (o : Op) → o.Ans → Bool
  | .mmioRead _ _, v => v == 0xFFFFFFFF
  | _, _ => true

/-- A register read is answered with all ones. -/
def AllOnes (o : Op) (x : o.Ans) : Prop := allOnes o x = true

namespace Op

def reads : Op → Prop
  | .mmioRead _ _ => True
  | _ => False

/-- Operations that leave an exchange where it is. -/
def still : Op → Prop
  | .load | .store _ | .acquire _ | .release _ | .mmioWrite _ _ _ => True
  | _ => False

theorem still.not_reads {o : Op} (h : o.still) : ¬ o.reads := by
  cases o <;> first | exact id | exact h.elim

theorem still.next {o : Op} (h : o.still) (x : o.Ans) (s : SendPhase) : SendPhase.next ⟨o, x⟩ s = s := by
  cases o <;> first | rfl | exact h.elim

end Op

/-- From place `s` on: what the code returns if the device dies in it, and if it does not. -/
abbrev Dying {α : Type} (F Q : SendPhase → α → Prop) (s : SendPhase) (p : Drv α) : Prop :=
  p.Marked (S := DriverSig) AllOnes Op.reads SendPhase.next F Q s

/-- What the code returns when the device is dead. -/
abbrev Dead {α : Type} (Q : α → Prop) (p : Drv α) : Prop := p.Returns (S := DriverSig) AllOnes Q

section Still

variable {α β : Type} {p : Drv α} {f : α → Drv β} {F Q : SendPhase → β → Prop} {s : SendPhase}

theorem Dying.after_still (hp : p.Only Op.still) (hf : ∀ a, Dying F Q s (f a)) : Dying F Q s (p >>= f) := by
  have hstill : Dying (fun _ _ => False) (fun s' _ => s' = s) s p :=
    hp.marked (fun _ => Op.still.not_reads) fun _ x ho => ho.next x s
  apply hstill.bind
  · rintro s' a rfl
    exact hf a
  · intro s' a h
    exact h.elim

theorem Dying.of_still {F Q : SendPhase → α → Prop} (hp : p.Only Op.still) (hQ : ∀ a, Q s a) :
    Dying F Q s p := by
  have hstill : Dying F (fun s' _ => s' = s) s p :=
    hp.marked (fun _ => Op.still.not_reads) fun _ x ho => ho.next x s
  apply hstill.mono
  · exact fun _ _ h => h
  · rintro s' a rfl
    exact hQ a

theorem Dead.after {R : β → Prop} (hf : ∀ a, Dead R (f a)) : Dead R (p >>= f) :=
  (returns_true p).bind fun a _ => hf a

end Still

/-! ## The accessors -/

theorem programTlb2M_still (tlbId : Nat) (cfg : NocTlbConfig) : (programTlb2M tlbId cfg).Only Op.still := by
  refine ⟨trivial, fun c _ => ⟨trivial, fun _ _ => ⟨trivial, fun _ _ => ⟨trivial, fun _ _ => ?_⟩⟩⟩⟩
  apply Within.ite
  · intro _
    exact ⟨trivial, fun _ _ => ⟨trivial, fun _ _ => trivial⟩⟩
  · intro _
    trivial

theorem arcNocPtr_still (a : UInt64) : (arcNocPtr a).Only Op.still :=
  (programTlb2M_still _ _).bind fun _ => ⟨trivial, fun _ _ => trivial⟩

theorem arcNocWrite32_still (a : UInt64) (v : UInt32) : (arcNocWrite32 a v).Only Op.still :=
  (arcNocPtr_still a).bind fun _ => ⟨trivial, fun _ _ => trivial⟩

theorem arcCsmWrite32_still (a v : UInt32) : (arcCsmWrite32 a v).Only Op.still := by
  unfold arcCsmWrite32
  apply Within.ite
  · intro _
    trivial
  · intro _
    exact (arcNocWrite32_still _ v).bind fun _ => trivial

theorem csmWriteWords_still (a : UInt32) (vs : List UInt32) : (csmWriteWords a vs).Only Op.still := by
  induction vs generalizing a with
  | nil => trivial
  | cons v vs ih =>
    unfold csmWriteWords
    apply (arcCsmWrite32_still a v).bind
    intro status
    apply Within.ite
    · intro _
      trivial
    · intro _
      exact ih (a + 4)

theorem arcApbWrite32Via_still (route : ArcRoute) (off v : UInt32) :
    (arcApbWrite32Via route off v).Only Op.still := by
  cases route with
  | none => trivial
  | nocLow => exact arcNocWrite32_still _ v
  | nocHigh => exact arcNocWrite32_still _ v
  | axi => exact ⟨trivial, fun _ _ => ⟨trivial, fun _ _ => trivial⟩⟩

theorem arcDoorbell_still : arcDoorbell.Only Op.still := by
  refine ⟨trivial, fun c _ => ?_⟩
  apply Within.ite
  · intro _
    exact arcApbWrite32Via_still _ _ _
  · intro _
    exact arcApbWrite32Via_still _ _ _

variable {s : SendPhase}

/-- A register read gives all ones once the device is dead, and moves the exchange on. -/
theorem readRegister_dying (p : IoPtr) (off : Nat) :
    Dying (fun s' v => s' = s ∧ v = 0xFFFFFFFF) (fun s' v => s' = s.read v) s (readRegister p off) := by
  constructor
  · intro _ v hv
    exact ⟨rfl, beq_iff_eq.mp hv⟩
  · intro v
    exact rfl

theorem readRegister_dead (p : IoPtr) (off : Nat) : Dead (· = 0xFFFFFFFF) (readRegister p off) :=
  fun _ hv => beq_iff_eq.mp hv

theorem arcNocRead32_dying (a : UInt64) :
    Dying (fun s' v => s' = s ∧ v = 0xFFFFFFFF) (fun s' v => s' = s.read v) s (arcNocRead32 a) :=
  Dying.after_still (arcNocPtr_still a) fun _ => readRegister_dying _ _

theorem arcNocRead32_dead (a : UInt64) : Dead (· = 0xFFFFFFFF) (arcNocRead32 a) :=
  Dead.after fun _ => readRegister_dead _ _

/-- Through a route, or without a read if there is none. -/
theorem arcApbRead32Via_dying (route : ArcRoute) (off : UInt32) :
    Dying (fun s' v => s' = s ∧ v = 0xFFFFFFFF) (fun s' v => s' = s.read v ∨ s' = s ∧ v = 0xFFFFFFFF) s
      (arcApbRead32Via route off) := by
  have hmono : ∀ {p : Drv UInt32},
      Dying (fun s' v => s' = s ∧ v = 0xFFFFFFFF) (fun s' v => s' = s.read v) s p →
      Dying (fun s' v => s' = s ∧ v = 0xFFFFFFFF) (fun s' v => s' = s.read v ∨ s' = s ∧ v = 0xFFFFFFFF) s p :=
    fun h => h.mono (fun _ _ => id) fun _ _ => .inl
  cases route with
  | none => exact marked_pure (.inr ⟨rfl, rfl⟩)
  | nocLow => exact hmono (arcNocRead32_dying _)
  | nocHigh => exact hmono (arcNocRead32_dying _)
  | axi =>
    apply hmono
    exact Dying.after_still (p := load) ⟨trivial, fun _ _ => trivial⟩ fun _ => readRegister_dying _ _

theorem arcApbRead32Via_dead (route : ArcRoute) (off : UInt32) :
    Dead (· = 0xFFFFFFFF) (arcApbRead32Via route off) := by
  cases route with
  | none => exact (returns_pure (S := DriverSig) _).mpr rfl
  | nocLow => exact arcNocRead32_dead _
  | nocHigh => exact arcNocRead32_dead _
  | axi => exact Dead.after (p := load) fun _ => readRegister_dead _ _

theorem arcCsmRead32_dying (a : UInt32) :
    Dying (fun s' x => csmRejects a = false ∧ s' = s ∧ x = .ok 0xFFFFFFFF)
      (fun s' x => (csmRejects a = true ∧ s' = s ∧ x = .error .invalidAddress) ∨
        (csmRejects a = false ∧ ∃ v, s' = s.read v ∧ x = .ok v)) s (arcCsmRead32 a) := by
  unfold arcCsmRead32
  apply Marked.ite
  · intro hrej
    exact marked_pure (.inl ⟨hrej, rfl, rfl⟩)
  · intro hrej
    have htaken : csmRejects a = false := by simpa using hrej
    apply (arcNocRead32_dying _).bind
    · rintro s' v rfl
      exact marked_pure (.inr ⟨htaken, v, rfl, rfl⟩)
    · rintro s' v ⟨rfl, rfl⟩
      exact (returns_pure (S := DriverSig) _).mpr ⟨htaken, rfl, rfl⟩

theorem arcCsmRead32_dead (a : UInt32) :
    Dead (fun x => x = if csmRejects a then .error .invalidAddress else .ok 0xFFFFFFFF) (arcCsmRead32 a) := by
  unfold arcCsmRead32
  apply Returns.ite
  · intro hrej
    rw [if_pos hrej]
    exact (returns_pure (S := DriverSig) _).mpr rfl
  · intro hrej
    rw [if_neg hrej]
    apply (arcNocRead32_dead _).bind
    rintro v rfl
    exact (returns_pure (S := DriverSig) _).mpr rfl

theorem Dying.after_write {β : Type} {F Q : SendPhase → β → Prop} {a v : UInt32} {f : NtStatus → Drv β}
    (ha : csmRejects a = false) (hf : Dying F Q s (f .success)) : Dying F Q s (arcCsmWrite32 a v >>= f) := by
  unfold arcCsmWrite32
  rw [if_neg (by simp [ha]), bind_assoc]
  exact Dying.after_still (arcNocWrite32_still _ v) fun _ => hf

theorem Dead.after_write {β : Type} {R : β → Prop} {a v : UInt32} {f : NtStatus → Drv β}
    (ha : csmRejects a = false) (hf : Dead R (f .success)) : Dead R (arcCsmWrite32 a v >>= f) := by
  unfold arcCsmWrite32
  rw [if_neg (by simp [ha]), bind_assoc]
  exact Dead.after fun _ => hf

/-! ## The rings -/

theorem readRingPtr_dead {a : UInt32} (ha : csmRejects a = false) :
    Dead (· = .error .deviceDoesNotExist) (readRingPtr a) := by
  unfold readRingPtr
  apply (arcCsmRead32_dead a).bind
  intro x hx
  rw [ha] at hx
  subst hx
  exact (returns_pure (S := DriverSig) _).mpr rfl

/-- A ring pointer that reads all ones is taken for a dead device. -/
theorem readRingPtr_dying {a : UInt32} (ha : csmRejects a = false) :
    Dying (fun s' x => s' = s ∧ x = .error .deviceDoesNotExist)
      (fun s' x => ∃ v, s' = s.read v ∧ x = if v = 0xFFFFFFFF then .error .deviceDoesNotExist else .ok v) s
      (readRingPtr a) := by
  unfold readRingPtr
  apply (arcCsmRead32_dying a).bind
  · rintro s' x (⟨hrej, -, -⟩ | ⟨-, v, rfl, rfl⟩)
    · rw [ha] at hrej
      cases hrej
    · apply Marked.ite
      · intro hv
        exact marked_pure ⟨v, rfl, (if_pos hv).symm⟩
      · intro hv
        exact marked_pure ⟨v, rfl, (if_neg hv).symm⟩
  · rintro s' x ⟨-, rfl, rfl⟩
    exact (returns_pure (S := DriverSig) _).mpr ⟨rfl, rfl⟩

theorem csmReadWords_dead {a : UInt32} {k : Nat} (ha : Taken a k) :
    Dead (fun x => ∃ words, x = .ok words) (csmReadWords a k) := by
  induction k generalizing a with
  | zero => exact (returns_pure (S := DriverSig) _).mpr ⟨[], rfl⟩
  | succ k ih =>
    unfold csmReadWords
    apply (arcCsmRead32_dead a).bind
    intro x hx
    rw [ha.1] at hx
    subst hx
    apply (ih ha.2).bind
    rintro y ⟨words, rfl⟩
    exact (returns_pure (S := DriverSig) _).mpr ⟨_, rfl⟩

/-- The words of a message are taken as they are read. -/
theorem csmReadWords_dying {a : UInt32} {k : Nat} (ha : Taken a k) (hs : ∀ v, s.read v = s) :
    Dying (fun s' x => s' = s ∧ ∃ words, x = .ok words) (fun s' x => s' = s ∧ ∃ words, x = .ok words) s
      (csmReadWords a k) := by
  induction k generalizing a with
  | zero => exact marked_pure ⟨rfl, [], rfl⟩
  | succ k ih =>
    unfold csmReadWords
    apply (arcCsmRead32_dying a).bind
    · rintro s' x (⟨hrej, -, -⟩ | ⟨-, v, rfl, rfl⟩)
      · rw [ha.1] at hrej
        cases hrej
      · rw [hs v]
        apply (ih ha.2).bind
        · rintro s' y ⟨rfl, words, rfl⟩
          exact marked_pure ⟨rfl, _, rfl⟩
        · rintro s' y ⟨rfl, words, rfl⟩
          exact (returns_pure (S := DriverSig) _).mpr ⟨rfl, _, rfl⟩
    · rintro s' x ⟨-, rfl, rfl⟩
      apply (csmReadWords_dead ha.2).bind
      rintro y ⟨words, rfl⟩
      exact (returns_pure (S := DriverSig) _).mpr ⟨rfl, _, rfl⟩

/-- A pop in which the device dies: at one of the two pointers, or at a word. -/
inductive PopDies (n : UInt32) (s : SendPhase) : SendPhase → Except NtStatus ArcMsg → Prop where
  | reader : PopDies n s s (.error .deviceDoesNotExist)
  | writer (r : UInt32) : PopDies n s (s.read r) (.error .deviceDoesNotExist)
  | word (r w : UInt32) (msg : ArcMsg) : (w - r) % (2 * n) ≠ 0 → PopDies n s ((s.read r).read w) (.ok msg)

/-- A pop that goes through, and how far it read. -/
inductive PopEnds (n : UInt32) (s : SendPhase) : SendPhase → Except NtStatus ArcMsg → Prop where
  | readerGone (r : UInt32) : PopEnds n s (s.read r) (.error .deviceDoesNotExist)
  | writerGone (r w : UInt32) : PopEnds n s ((s.read r).read w) (.error .deviceDoesNotExist)
  | empty (r w : UInt32) : (w - r) % (2 * n) = 0 → PopEnds n s ((s.read r).read w) (.error .deviceBusy)
  | popped (r w : UInt32) (msg : ArcMsg) : PopEnds n s ((s.read r).read w) (.ok msg)

section Aligned

variable {base n : UInt32} (hring : Located base n) (h4 : base.toNat % 4 = 0)

include hring h4

theorem arcTryPush_dead (msg : ArcMsg) : Dead (· = .deviceDoesNotExist) (arcTryPush msg base n) := by
  unfold arcTryPush
  apply (readRingPtr_dead (aligned_header hring h4 (by decide) (by decide))).bind
  rintro x rfl
  exact (returns_pure (S := DriverSig) _).mpr rfl

theorem arcTryPush_dying (msg : ArcMsg) (hs : ∀ v, s.read v = s) :
    Dying (fun s' x => s' = s ∧ x = .deviceDoesNotExist) (fun s' _ => s' = s) s (arcTryPush msg base n) := by
  unfold arcTryPush
  apply (readRingPtr_dying (aligned_header hring h4 (by decide) (by decide))).bind
  · rintro s' x ⟨w, rfl, rfl⟩
    rw [hs w]
    split
    · exact marked_pure rfl
    · apply (readRingPtr_dying (aligned_header hring h4 (by decide) (by decide))).bind
      · rintro s' y ⟨r, rfl, rfl⟩
        rw [hs r]
        split
        · exact marked_pure rfl
        · apply Marked.ite
          · intro _
            exact marked_pure rfl
          · intro _
            apply Dying.after_still (csmWriteWords_still _ _)
            intro status
            apply Marked.ite
            · intro _
              exact marked_pure rfl
            · intro _
              exact Dying.of_still (arcCsmWrite32_still _ _) fun _ => rfl
      · rintro s' y ⟨rfl, rfl⟩
        exact (returns_pure (S := DriverSig) _).mpr ⟨rfl, rfl⟩
  · rintro s' x ⟨rfl, rfl⟩
    exact (returns_pure (S := DriverSig) _).mpr ⟨rfl, rfl⟩

theorem responseSlot_taken (v : UInt32) : Taken (responseSlot base n (v % n)) 8 := by
  have hlow := hring.low
  have hhigh := hring.high
  have hslot := hring.slot_lt v
  have hstart := hring.responseSlot_toNat hslot
  apply taken_of_within <;> omega

/-- A pop reports a device that dies at a pointer, and answers a message if it dies at a word. -/
theorem arcTryPop_dying
    (hs : ∀ r w, (w - r) % (2 * n) ≠ 0 → ∀ v, ((s.read r).read w).read v = (s.read r).read w) :
    Dying (PopDies n s) (PopEnds n s) s (arcTryPop base n) := by
  have hrptr := aligned_header hring h4 (o := 4) (by decide) (by decide)
  unfold arcTryPop
  apply (readRingPtr_dying hrptr).bind
  · rintro s' x ⟨r, rfl, rfl⟩
    by_cases hr : r = 0xFFFFFFFF
    · rw [if_pos hr]
      exact marked_pure (.readerGone r)
    rw [if_neg hr]
    dsimp only
    apply (readRingPtr_dying (aligned_header hring h4 (by decide) (by decide))).bind
    · rintro s' y ⟨w, rfl, rfl⟩
      by_cases hw : w = 0xFFFFFFFF
      · rw [if_pos hw]
        exact marked_pure (.writerGone r w)
      rw [if_neg hw]
      apply Marked.ite
      · intro hempty
        exact marked_pure (.empty r w hempty)
      · intro hready
        apply (csmReadWords_dying (responseSlot_taken hring h4 r) (hs r w hready)).bind
        · rintro s' z ⟨rfl, words, rfl⟩
          exact Dying.after_write hrptr (marked_pure (.popped r w _))
        · rintro s' z ⟨rfl, words, rfl⟩
          exact Dead.after_write hrptr ((returns_pure (S := DriverSig) _).mpr (.word r w _ hready))
    · rintro s' y ⟨rfl, rfl⟩
      exact (returns_pure (S := DriverSig) _).mpr (.writer r)
  · rintro s' x ⟨rfl, rfl⟩
    exact (returns_pure (S := DriverSig) _).mpr .reader

/-! ## The exchange -/

/-- All stale responses are discarded before the ring is left. -/
theorem drainResponses_dying (i : Nat) :
    Dying (fun s' _ => s' = .ring n) (fun s' _ => s' = .ring n) (.ring n) (drainResponses base n i) := by
  induction i with
  | zero => exact marked_pure rfl
  | succ i ih =>
    unfold drainResponses
    apply (arcTryPop_dying hring h4 fun _ _ _ _ => rfl).bind
    · intro s' x hx
      cases hx with
      | readerGone => exact marked_pure rfl
      | writerGone => exact marked_pure rfl
      | empty => exact marked_pure rfl
      | popped => exact ih
    · intro s' x hx
      cases hx with
      | reader => exact (returns_true _).mono fun _ _ => rfl
      | writer => exact (returns_true _).mono fun _ _ => rfl
      | word => exact (returns_true _).mono fun _ _ => rfl

/-- One pop of the response loop: the device is taken for dead unless it dies at a word. -/
theorem pollRoundResponse_dying {again : Drv (Except NtStatus ArcMsg)}
    (h : Dying (fun s' x => x = .error .deviceDoesNotExist ↔ s'.overlooks = false) (fun _ _ => True)
      (.response n) again) :
    Dying (fun s' x => x = .error .deviceDoesNotExist ↔ s'.overlooks = false) (fun _ _ => True)
      (.response n) (pollRoundResponse base n again) := by
  have hphase : ∀ r w, ((SendPhase.response n).read r).read w =
      if (w - r) % (2 * n) = 0 then .response n else .words := fun _ _ => rfl
  apply (arcTryPop_dying hring h4 ?_).bind
  · intro s' x hx
    cases hx with
    | readerGone => exact marked_pure trivial
    | writerGone => exact marked_pure trivial
    | empty r w hempty =>
      rw [hphase, if_pos hempty]
      exact h
    | popped => exact marked_pure trivial
  · intro s' x hx
    cases hx with
    | reader => exact (returns_pure (S := DriverSig) _).mpr ⟨fun _ => rfl, fun _ => rfl⟩
    | writer => exact (returns_pure (S := DriverSig) _).mpr ⟨fun _ => rfl, fun _ => rfl⟩
    | word r w msg hready =>
      rw [hphase, if_neg hready]
      exact (returns_pure (S := DriverSig) _).mpr ⟨nofun, nofun⟩
  · intro r w hready v
    rw [hphase, if_neg hready]
    rfl

theorem pollResponse_dying (polls : Nat) :
    Dying (fun s' x => x = .error .deviceDoesNotExist ↔ s'.overlooks = false) (fun _ _ => True)
      (.response n) (pollResponse base n polls) := by
  induction polls with
  | zero => exact pollRoundResponse_dying hring h4 (marked_pure trivial)
  | succ polls ih =>
    apply pollRoundResponse_dying hring h4
    exact ⟨fun h => h.elim, fun _ => ih⟩

theorem arcExchange_dead (msg : ArcMsg) :
    Dead (· = .error .deviceDoesNotExist) (arcExchange msg base n) := by
  unfold arcExchange
  apply Dead.after
  intro _
  apply (arcTryPush_dead hring h4 msg).bind
  rintro status rfl
  exact (returns_pure (S := DriverSig) _).mpr rfl

/-- Past the queue check, only the words of the response hide a dead device. -/
theorem arcExchange_dying (msg : ArcMsg) :
    Dying (fun s' x => x = .error .deviceDoesNotExist ↔ s'.overlooks = false) (fun _ _ => True)
      (.ring n) (arcExchange msg base n) := by
  unfold arcExchange
  apply (drainResponses_dying hring h4 n.toNat).bind
  · rintro s' _ rfl
    apply (arcTryPush_dying hring h4 msg fun _ => rfl).bind
    · rintro s' status rfl
      apply Marked.ite
      · intro _
        exact marked_pure trivial
      · intro _
        apply Dying.after_still arcDoorbell_still
        intro _
        exact ⟨fun h => h.elim, fun polls => pollResponse_dying hring h4 polls⟩
    · rintro s' status ⟨rfl, rfl⟩
      exact (returns_pure (S := DriverSig) _).mpr ⟨fun _ => rfl, fun _ => rfl⟩
  · rintro s' _ rfl
    apply (arcTryPush_dead hring h4 msg).bind
    rintro status rfl
    exact (returns_pure (S := DriverSig) _).mpr ⟨fun _ => rfl, fun _ => rfl⟩

end Aligned

/-- On a ring that is not aligned an exchange fails before it reads anything. -/
theorem arcExchange_unaligned {base n : UInt32} (hring : Located base n) (h4 : base.toNat % 4 ≠ 0)
    (msg : ArcMsg) : arcExchange msg base n = Pure.pure (.error .invalidAddress) := by
  have hptr : ∀ {o : UInt32}, o.toNat < 32 → o.toNat % 4 = 0 →
      readRingPtr (base + o) = Pure.pure (.error .invalidAddress) := by
    intro o hoff hoff4
    unfold readRingPtr arcCsmRead32
    rw [if_pos ((hring.header_rejects hoff hoff4).mpr h4)]
    rfl
  have hpop : arcTryPop base n = Pure.pure (.error .invalidAddress) := by
    unfold arcTryPop resRptr
    rw [hptr (by decide) (by decide)]
    rfl
  have hdrain : ∀ i, drainResponses base n i = Pure.pure () := by
    intro i
    cases i with
    | zero => rfl
    | succ i =>
      unfold drainResponses
      rw [hpop]
      rfl
  have hpush : arcTryPush msg base n = Pure.pure .invalidAddress := by
    unfold arcTryPush reqWptr
    rw [hptr (by decide) (by decide)]
    rfl
  unfold arcExchange
  rw [hdrain, hpush]
  rfl

/-! ## Discovery -/

/-- A poll round on a dead device: nothing is found, and nothing is seen alive. -/
theorem probeRoutes_dead (boot : BootStatus) (allDead : Bool) (routes : List ArcRoute) :
    Dead (fun r => r.2.1 = allDead ∧ r.2.2 = false) (probeRoutes boot allDead routes) := by
  induction routes generalizing boot with
  | nil => exact (returns_pure (S := DriverSig) _).mpr ⟨rfl, rfl⟩
  | cons route routes ih =>
    unfold probeRoutes
    apply Dead.after
    intro c
    apply Returns.ite
    · intro _
      exact ih boot
    · intro _
      apply (arcApbRead32Via_dead route arcBootStatus).bind
      rintro v rfl
      rw [if_neg (by decide)]
      have hdead : (allDead && (0xFFFFFFFF : UInt32) == 0xFFFFFFFF) = allDead := by simp
      rw [hdead]
      exact ih _

theorem read_discovering {polls : Nat} {alive : Bool} {s' : SendPhase} {v : UInt32}
    (h : s' = (SendPhase.discovering polls alive).read v ∨ s' = .discovering polls alive ∧ v = 0xFFFFFFFF) :
    s' = if v ≠ 0xFFFFFFFF ∧ v &&& arcBootStatusReady ≠ 0 then .pointer
      else .discovering polls (alive || v != 0xFFFFFFFF) := by
  rcases h with rfl | ⟨rfl, rfl⟩
  · simp [SendPhase.read, bootReady]
  · simp

/-- A poll round: the routes that were seen alive are those before the device died. -/
theorem probeRoutes_dying (polls : Nat) (boot : BootStatus) (alive : Bool) (routes : List ArcRoute) :
    Dying (fun s' r => ∃ alive', s' = .discovering polls alive' ∧ r.2.1 = !alive' ∧ r.2.2 = false)
      (fun s' r => if r.2.2 then s' = .pointer else s' = .discovering polls !r.2.1)
      (.discovering polls alive) (probeRoutes boot (!alive) routes) := by
  induction routes generalizing boot alive with
  | nil => exact marked_pure (by simp)
  | cons route routes ih =>
    unfold probeRoutes
    refine ⟨fun h => h.elim, fun c => ?_⟩
    apply Marked.ite
    · intro _
      exact ih boot alive
    · intro _
      apply (arcApbRead32Via_dying route arcBootStatus).bind
      · intro s' v hread
        have hs' := read_discovering hread
        apply Marked.ite
        · intro hready
          rw [if_pos hready] at hs'
          exact ⟨fun h => h.elim, fun _ => marked_pure hs'⟩
        · intro hready
          rw [if_neg hready] at hs'
          have hdead : (!alive && v == 0xFFFFFFFF) = !(alive || v != 0xFFFFFFFF) := by
            simp [bne]
          rw [hs', hdead]
          exact ih _ _
      · rintro s' v ⟨rfl, rfl⟩
        rw [if_neg (by decide)]
        apply (probeRoutes_dead _ _ routes).mono
        rintro r ⟨hdead, hfound⟩
        exact ⟨alive, rfl, by simpa using hdead, hfound⟩

/-- A discovery loop on a dead device ends in its first round. -/
theorem pollRoutes_dead (boot : BootStatus) (polls : Nat) :
    Dead (fun r => r.1 = .deviceDoesNotExist) (pollRoutes boot polls) := by
  have hround : ∀ again, Dead (fun r => r.1 = .deviceDoesNotExist) (pollRound boot again) := by
    intro again
    apply (probeRoutes_dead boot true arcRouteOrder).bind
    rintro ⟨boot', _, _⟩ ⟨rfl, rfl⟩
    exact (returns_pure (S := DriverSig) _).mpr rfl
  cases polls with
  | zero => exact hround _
  | succ polls => exact hround _

/-- What discovery answers if the device dies in it. -/
def DiscoveryDies (s : SendPhase) (r : NtStatus × BootStatus) : Prop :=
  ∃ polls alive, s = .discovering polls alive ∧
    r.1 = if s.overlooks then .deviceNotReady else .deviceDoesNotExist

/-- What discovery answers if it does not. -/
def DiscoveryEnds (s : SendPhase) (r : NtStatus × BootStatus) : Prop :=
  r.1.ok = true → s = .pointer

theorem pollRound_dying {polls : Nat} {boot : BootStatus} {again : BootStatus → Drv (NtStatus × BootStatus)}
    (h : ∀ boot, Dying DiscoveryDies DiscoveryEnds (.discovering polls true) (again boot))
    (hdead : ∀ boot, Dead (fun r => r.1 = if polls = 0 then .deviceNotReady else .deviceDoesNotExist)
      (again boot)) :
    Dying DiscoveryDies DiscoveryEnds (.discovering polls false) (pollRound boot again) := by
  apply (probeRoutes_dying polls boot false arcRouteOrder).bind
  · rintro s' ⟨boot', allDead, found⟩ hs'
    cases found with
    | true => exact marked_pure fun _ => hs'
    | false =>
      cases allDead with
      | true => exact marked_pure nofun
      | false =>
        obtain rfl : s' = .discovering polls true := hs'
        exact h boot'
  · rintro s' ⟨boot', allDead, found⟩ ⟨alive, rfl, hall, rfl⟩
    obtain rfl : allDead = !alive := hall
    cases alive with
    | false => exact (returns_pure (S := DriverSig) _).mpr ⟨polls, false, rfl, by simp [SendPhase.overlooks]⟩
    | true =>
      apply (hdead boot').mono
      intro r hr
      refine ⟨polls, true, rfl, ?_⟩
      rw [hr]
      cases polls <;> rfl

/-- The deadline is passed after the last round: only there a route that was seen alive hides
a dead device. -/
theorem pollRoutes_dying (boot : BootStatus) (polls : Nat) :
    Dying DiscoveryDies DiscoveryEnds (.discovering polls false) (pollRoutes boot polls) := by
  induction polls generalizing boot with
  | zero =>
    apply pollRound_dying
    · intro boot'
      exact marked_pure nofun
    · intro boot'
      exact (returns_pure (S := DriverSig) _).mpr rfl
  | succ polls ih =>
    apply pollRound_dying
    · intro boot'
      exact ⟨fun h => h.elim, fun _ => ih boot'⟩
    · intro boot'
      exact Dead.after (p := op (.stall 200)) fun _ => pollRoutes_dead boot' polls

/-! ## The queue -/

/-- What the location of the queue answers if the device dies in it. -/
def LocateDies (s : SendPhase) (r : NtStatus × UInt32 × UInt32 × ArcReport) : Prop :=
  match s with
  | .discovering _ _ => r.1 = if s.overlooks then .deviceNotReady else .deviceDoesNotExist
  | .pointer | .queueBase => r.1 = .invalidAddress
  | .queueInfo base =>
    if ringFits base 0xFF then r.1 = .success ∧ r.2.1 = base ∧ r.2.2.1 = 0xFF else r.1 = .invalidAddress
  | _ => False

/-- What it answers if it does not. -/
def LocateEnds (s : SendPhase) (r : NtStatus × UInt32 × UInt32 × ArcReport) : Prop :=
  r.1.ok = true → s = .ring r.2.2.1 ∧ Located r.2.1 r.2.2.1

theorem arcApbRead32_dying (off : UInt32) :
    Dying (fun s' v => s' = s ∧ v = 0xFFFFFFFF) (fun s' v => s' = s.read v ∨ s' = s ∧ v = 0xFFFFFFFF) s
      (arcApbRead32 off) :=
  ⟨fun h => h.elim, fun _ => arcApbRead32Via_dying _ off⟩

/-- All ones are an entry count of 255, which the queue check may let through. -/
theorem queueCheck_dead {base : UInt32} {report : ArcReport} :
    Dead (LocateDies (.queueInfo base))
      (if (0xFFFFFFFF : UInt32) &&& 0xFF = 0 then
          return (.notSupported, base, (0xFFFFFFFF : UInt32) &&& 0xFF, report)
        else if (!ringFits base ((0xFFFFFFFF : UInt32) &&& 0xFF)) = true then
          return (.invalidAddress, base, (0xFFFFFFFF : UInt32) &&& 0xFF, report)
        else return (.success, base, (0xFFFFFFFF : UInt32) &&& 0xFF, report)) := by
  have hcount : (0xFFFFFFFF : UInt32) &&& 0xFF = 0xFF := by decide
  rw [hcount, if_neg (by decide)]
  cases hfits : ringFits base 0xFF with
  | false => exact (returns_pure (S := DriverSig) _).mpr (by simp [LocateDies, hfits])
  | true => exact (returns_pure (S := DriverSig) _).mpr (by simp [LocateDies, hfits])

/-- The address of the queue control block is checked by the accessors, its base only by the
queue check, and its entry count by neither. -/
theorem arcLocateQueue_dying : Dying LocateDies LocateEnds .start arcLocateQueue := by
  unfold arcLocateQueue
  refine ⟨fun h => h.elim, fun polls => ?_⟩
  apply (pollRoutes_dying _ polls).bind
  · rintro s' ⟨status, boot⟩ hs'
    apply Marked.ite
    · intro hfail
      exact marked_pure fun hok => absurd hfail (by simpa using hok)
    · intro hok
      obtain rfl : s' = .pointer := hs' (by simpa using hok)
      refine ⟨fun h => h.elim, fun c => ?_⟩
      apply (arcApbRead32_dying arcMsgQcbPtr).bind
      · intro s' qcb hqcb
        apply (arcCsmRead32_dying (qcb + 0)).bind
        · rintro s'' x (⟨-, -, rfl⟩ | ⟨htaken, base, rfl, rfl⟩)
          · exact marked_pure nofun
          · have hs'' : s' = .queueBase := by
              rcases hqcb with rfl | ⟨-, rfl⟩
              · rfl
              · exact absurd htaken (by decide)
            subst hs''
            apply (arcCsmRead32_dying (qcb + 4)).bind
            · rintro s'' y (⟨-, -, rfl⟩ | ⟨-, info, rfl, rfl⟩)
              · exact marked_pure nofun
              · apply Marked.ite
                · intro _
                  exact marked_pure nofun
                · intro hzero
                  apply Marked.ite
                  · intro _
                    exact marked_pure nofun
                  · intro hfits
                    exact marked_pure fun _ => ⟨rfl, located_of_check hzero (by simpa using hfits)⟩
            · rintro s'' y ⟨-, rfl, rfl⟩
              exact queueCheck_dead
        · rintro s'' x ⟨htaken, rfl, rfl⟩
          have hs'' : s'' = .queueBase := by
            rcases hqcb with rfl | ⟨-, rfl⟩
            · rfl
            · exact absurd htaken (by decide)
          subst hs''
          apply (arcCsmRead32_dead (qcb + 4)).bind
          rintro y rfl
          cases csmRejects (qcb + 4) with
          | true => exact (returns_pure (S := DriverSig) _).mpr rfl
          | false => exact (returns_pure (S := DriverSig) _).mpr rfl
      · rintro s' v ⟨rfl, rfl⟩
        exact (returns_pure (S := DriverSig) _).mpr rfl
  · rintro s' ⟨status, boot⟩ ⟨polls, alive, rfl, hstatus⟩
    have hstatus : status = _ := hstatus
    have hfail : (!status.ok) = true := by
      rw [hstatus]
      split <;> rfl
    apply Returns.ite
    · intro _
      exact (returns_pure (S := DriverSig) _).mpr hstatus
    · intro hok
      exact absurd hfail hok

/-- What an exchange returns if the device dies in it: gone, unless it is at a place that takes
all ones for something else. -/
theorem arcSendLocked_dying (msg : ArcMsg) :
    Dying (fun s' r => r = .error .deviceDoesNotExist ↔ s'.overlooks = false) (fun _ _ => True) .start
      (arcSendLocked msg) := by
  refine ⟨fun h => h.elim, fun c => ?_⟩
  apply Marked.ite
  · intro _
    exact marked_pure trivial
  intro _
  apply Marked.ite
  · intro _
    exact marked_pure trivial
  intro _
  apply arcLocateQueue_dying.bind
  · rintro s' ⟨status, base, n, report⟩ hends
    apply Marked.ite
    · intro _
      exact marked_pure trivial
    · intro hok
      obtain ⟨rfl, hring⟩ := hends (by simpa using hok)
      by_cases h4 : base.toNat % 4 = 0
      · exact arcExchange_dying hring h4 msg
      · show Dying _ _ _ (arcExchange msg base n)
        rw [arcExchange_unaligned hring h4]
        exact marked_pure trivial
  · rintro s' ⟨status, base, n, report⟩ hdies
    have hfails : status.ok = false → (status = .deviceDoesNotExist ↔ s'.overlooks = false) →
        Dead (fun r => r = .error .deviceDoesNotExist ↔ s'.overlooks = false)
          (if (!status.ok) = true then return .error status else arcExchange msg base n) := by
      intro hok hiff
      rw [if_pos (by simp [hok])]
      exact (returns_pure (S := DriverSig) _).mpr ⟨fun h => hiff.mp (by simpa using h), fun h => by rw [hiff.mpr h]⟩
    cases s' with
    | discovering polls alive =>
      have hstatus : status = _ := hdies
      cases hover : (SendPhase.discovering polls alive).overlooks with
      | true =>
        rw [hover] at hstatus hfails
        subst hstatus
        exact hfails rfl ⟨nofun, nofun⟩
      | false =>
        rw [hover] at hstatus hfails
        subst hstatus
        exact hfails rfl ⟨fun _ => rfl, fun _ => rfl⟩
    | pointer =>
      obtain rfl : status = .invalidAddress := hdies
      exact hfails rfl ⟨nofun, nofun⟩
    | queueBase =>
      obtain rfl : status = .invalidAddress := hdies
      exact hfails rfl ⟨nofun, nofun⟩
    | queueInfo base' =>
      unfold LocateDies at hdies
      cases hfits : ringFits base' 0xFF with
      | false =>
        obtain rfl : status = .invalidAddress := by simpa [hfits] using hdies
        exact hfails rfl ⟨nofun, by simp [SendPhase.overlooks, hfits]⟩
      | true =>
        obtain ⟨rfl, rfl, rfl⟩ : status = .success ∧ base = base' ∧ n = 0xFF := by simpa [hfits] using hdies
        have hring : Located base 0xFF := @located_of_check base 0xFF (by decide) hfits
        show Dead _ (arcExchange msg base 0xFF)
        by_cases h4 : base.toNat % 4 = 0
        · apply (arcExchange_dead hring h4 msg).mono
          rintro r rfl
          simp [SendPhase.overlooks, hfits, (and_three_eq_zero base).mpr h4]
        · rw [arcExchange_unaligned hring h4]
          have haligned : ¬ base &&& 3 = 0 := fun h => h4 ((and_three_eq_zero base).mp h)
          exact (returns_pure (S := DriverSig) _).mpr (by simp [SendPhase.overlooks, haligned])
    | start => exact hdies.elim
    | ring => exact hdies.elim
    | response => exact hdies.elim
    | writer => exact hdies.elim
    | words => exact hdies.elim

theorem arcMsgSendSync_dying (msg : ArcMsg) :
    Dying (fun s' r => r = .error .deviceDoesNotExist ↔ s'.overlooks = false) (fun _ _ => True) .start
      (arcMsgSendSync msg) := by
  refine ⟨fun h => h.elim, fun _ => ?_⟩
  apply (arcSendLocked_dying msg).bind
  · intro s' r _
    exact ⟨fun h => h.elim, fun _ => trivial⟩
  · intro s' r hr
    exact Dead.after (p := release .arc) fun _ => (returns_pure (S := DriverSig) _).mpr hr

/-- A device that dies is reported as gone except at a few reads. Take any exchange, whatever the
device answered before, from one of whose register reads on all of them give all ones: it returns
STATUS_DEVICE_DOES_NOT_EXIST exactly if that read is not one whose all ones are taken for
something else, which are those that `SendPhase.overlooks` lists. -/
theorem dying_device_reported {msg : ArcMsg} {before after : List Event} {p : IoPtr} {off : Nat}
    {r : Except NtStatus ArcMsg}
    (h : (arcMsgSendSync msg).Leads (after ++ ⟨.mmioRead p off, (0xFFFFFFFF : UInt32)⟩ :: before) (.pure r))
    (hdead : ∀ ev ∈ after, AllOnes ev.1 ev.2) :
    r = .error .deviceDoesNotExist ↔ (sendPhase before).overlooks = false :=
  (arcMsgSendSync_dying msg).fate h trivial rfl hdead

/-- The card is there, the kernel window mapped. -/
def windowMapped : World := { ctx := { needsHwInit := false, kernelTlb := some 1, tlbRegs := some 2 } }

/-- Register reads by the kernel window, with these values. -/
def windowReads (vs : List UInt32) : List Choice := vs.flatMap fun v => plainOps 5 ++ [.word v]

/-- An exchange up to its push: a ring with one entry, empty. -/
def exchangeBegins : List Choice :=
  plainOps 2 ++ locateChoices 0x10000020 1 ++ windowReads [0, 0]

/-- The latest events are those of a dead device, from the one with this number on. -/
def diesAt (i : Nat) (evs : List Event) : Bool :=
  (evs.take i).all (fun ev => allOnes ev.1 ev.2) &&
    match evs.drop i with
    | ⟨.mmioRead _ _, v⟩ :: _ => v == 0xFFFFFFFF
    | _ => false

theorem dies_of_diesAt {i : Nat} {evs : List Event} (h : diesAt i evs = true) :
    ∃ before after p off, evs = after ++ ⟨.mmioRead p off, (0xFFFFFFFF : UInt32)⟩ :: before ∧
      before = evs.drop (i + 1) ∧ ∀ ev ∈ after, AllOnes ev.1 ev.2 := by
  unfold diesAt at h
  rw [Bool.and_eq_true, List.all_eq_true] at h
  obtain ⟨hafter, hread⟩ := h
  split at hread
  · rename_i p off v before hdrop
    obtain rfl : v = 0xFFFFFFFF := beq_iff_eq.mp hread
    refine ⟨before, evs.take i, p, off, ?_, ?_, hafter⟩
    · rw [← hdrop, List.take_append_drop]
    · rw [← List.tail_drop, hdrop]
      rfl
  · cases hread

/-- The device dies before the push reads its write pointer, and is reported. -/
theorem dying_device_reported_push : ∃ (before after : List Event) (p : IoPtr) (off : Nat)
    (r : Except NtStatus ArcMsg),
    (arcMsgSendSync {}).Leads (after ++ ⟨.mmioRead p off, (0xFFFFFFFF : UInt32)⟩ :: before) (.pure r) ∧
      (∀ ev ∈ after, AllOnes ev.1 ev.2) ∧ r = .error .deviceDoesNotExist := by
  have hrun : (driverMachine.replay .ioctl (arcMsgSendSync {}) (exchangeBegins ++ windowReads [0xFFFFFFFF] ++ plainOps 1)
      windowMapped).any (fun r => diesAt 1 (r.2.hist .ioctl) &&
        (sendPhase ((r.2.hist .ioctl).drop 2)).overlooks == false) = true := by decide
  obtain ⟨r, w', hsolo, htest⟩ := Effect.Solo.exists_of_replay hrun
  rw [Bool.and_eq_true, beq_iff_eq] at htest
  obtain ⟨evs, hleads, hhist⟩ := solo_hist hsolo
  obtain rfl : w'.hist .ioctl = evs := hhist.trans (List.append_nil evs)
  obtain ⟨before, after, p, off, hevs, rfl, hdead⟩ := dies_of_diesAt htest.1
  rw [hevs] at hleads
  exact ⟨_, after, p, off, r, hleads, hdead, (dying_device_reported hleads hdead).mpr htest.2⟩

/-- The device dies before the words of the response are read: the exchange succeeds, with a
response of all ones. -/
theorem dead_words_returned : ∃ (before after : List Event) (p : IoPtr) (off : Nat) (msg : ArcMsg),
    (arcMsgSendSync {}).Leads (after ++ ⟨.mmioRead p off, (0xFFFFFFFF : UInt32)⟩ :: before) (.pure (.ok msg)) ∧
      (∀ ev ∈ after, AllOnes ev.1 ev.2) ∧ msg.words = List.replicate 8 0xFFFFFFFF := by
  have hrun : (driverMachine.replay .ioctl (arcMsgSendSync {}) (exchangeBegins ++ windowReads [0, 0] ++ plainOps 61 ++
      [.count 0] ++ windowReads ([0, 1] ++ List.replicate 8 0xFFFFFFFF) ++ plainOps 7) windowMapped).any
      (fun r => diesAt 49 (r.2.hist .ioctl) &&
        match r.1 with
        | .ok msg => msg.words == List.replicate 8 0xFFFFFFFF
        | .error _ => false) = true := by decide
  obtain ⟨r, w', hsolo, htest⟩ := Effect.Solo.exists_of_replay hrun
  rw [Bool.and_eq_true] at htest
  obtain ⟨evs, hleads, hhist⟩ := solo_hist hsolo
  obtain rfl : w'.hist .ioctl = evs := hhist.trans (List.append_nil evs)
  obtain ⟨before, after, p, off, hevs, -, hdead⟩ := dies_of_diesAt htest.1
  rw [hevs] at hleads
  cases r with
  | ok msg => exact ⟨before, after, p, off, msg, hleads, hdead, beq_iff_eq.mp htest.2⟩
  | error status => cases htest.2

end TtWind
