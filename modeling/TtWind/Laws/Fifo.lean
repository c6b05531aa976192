import TtWind.Effect.Rely
import TtWind.Laws.Mailbox

/-!
# The mailbox rings are queues

The invariant is `Mailbox.Sound`. Every move of the firmware keeps it, whatever the driver is in
the middle of, and leaves alone what the driver relies on: its own counters, the words of the request
slots, and that what was there to collect still is. The driver's code is specified against this, the
clock of a call being any.
-/

set_option autoImplicit false

namespace TtWind

open TtWind.Effect TtWind.Effect.Prog

/-! ## Where the words of the rings are -/

theorem requestRing_owns {base n x : Nat} (h : (requestRing base n).Owns x) :
    x = base ∨ x = base + 16 ∨ (base + 32 ≤ x ∧ x < base + 32 + 32 * n) := by
  rcases h with rfl | rfl | ⟨i, hi, j, hj, rfl⟩
  · exact .inl rfl
  · exact .inr (.inl rfl)
  · have hi : i < n := hi
    omega

theorem responseRing_owns {base n x : Nat} (h : (responseRing base n).Owns x) :
    x = base + 20 ∨ x = base + 4 ∨ (base + 32 + 32 * n ≤ x ∧ x < base + 32 + 64 * n) := by
  rcases h with rfl | rfl | ⟨i, hi, j, hj, rfl⟩
  · exact .inl rfl
  · exact .inr (.inl rfl)
  · have hi : i < n := hi
    omega

namespace Mailbox

variable {base n : Nat} {w w' : Mailbox}

/-- What a change of the memory leaves of a ring it does not touch. -/
theorem requests_frame {out into : List ArcMsg} {mem : Nat → UInt32} {a : Nat} {v : UInt32}
    (h : (requestRing base n).Carries mem out into)
    (ha : a ≠ base ∧ a ≠ base + 16 ∧ (a < base + 32 ∨ base + 32 + 32 * n ≤ a)) :
    (requestRing base n).Carries (Function.update mem a v) out into := by
  apply h.frame
  intro x hx
  apply Function.update_of_ne
  have hown := requestRing_owns hx
  omega

theorem responses_frame {out into : List ArcMsg} {mem : Nat → UInt32} {a : Nat} {v : UInt32}
    (h : (responseRing base n).Carries mem out into)
    (ha : a ≠ base + 20 ∧ a ≠ base + 4 ∧ (a < base + 32 + 32 * n ∨ base + 32 + 64 * n ≤ a)) :
    (responseRing base n).Carries (Function.update mem a v) out into := by
  apply h.frame
  intro x hx
  apply Function.update_of_ne
  have hown := responseRing_owns hx
  omega

/-- A counter's word, moved on. -/
theorem toNat_advance {n v : Nat} (hn : 0 < n) (hsmall : n ≤ 255) :
    (UInt32.ofNat (RingQueue.advance n v)).toNat = RingQueue.advance n v := by
  apply UInt32.toNat_ofNat_of_lt
  have hlt := RingQueue.advance_lt hn v
  show RingQueue.advance n v < 2 ^ 32
  omega

/-- The firmware keeps the rings. -/
theorem Sound.firmware {m : FirmwareMove} (h : w.Sound base n) (hsmall : n ≤ 255)
    (he : w.firmware base n m = some w') : w'.Sound base n := by
  have hpos : 0 < n := h.requests.size_pos
  cases m with
  | take =>
    simp only [Mailbox.firmware, Option.ite_none_right_eq_some, Option.some.injEq] at he
    obtain ⟨hsome, rfl⟩ := he
    have hlen := h.requests.length
    constructor
    · apply h.requests.take (by omega)
      · show UInt32.toNat (Function.update w.mem _ _ _) = _
        rw [Function.update_self, toNat_advance hpos hsmall]
        rfl
      · intro x _ hx
        exact Function.update_of_ne hx _ _
    · apply responses_frame h.responses
      show base + 16 ≠ base + 20 ∧ base + 16 ≠ base + 4 ∧ (base + 16 < base + 32 + 32 * n ∨ _)
      omega
    · have hanswers := h.answers
      show w.answered.length ≤ (w.taken ++ [_]).length
      rw [List.length_append]
      omega
  | compose j v =>
    simp only [Mailbox.firmware, Option.ite_none_right_eq_some, Option.some.injEq] at he
    obtain ⟨hroom, rfl⟩ := he
    have hlen := h.responses.length
    have hnext : (responseRing base n).next w.mem < n := h.responses.next_lt
    constructor
    · apply requests_frame h.requests
      omega
    · apply h.responses.fill
      · show w.answered.length < w.collected.length + n
        omega
      · intro x _ hx
        apply Function.update_of_ne
        rintro rfl
        exact hx ⟨j, j.isLt, rfl⟩
    · exact h.answers
  | answer =>
    simp only [Mailbox.firmware, Option.ite_none_right_eq_some, Option.some.injEq] at he
    obtain ⟨⟨hroom, hdue⟩, rfl⟩ := he
    have hlen := h.responses.length
    constructor
    · apply requests_frame h.requests
      show base + 20 ≠ base ∧ base + 20 ≠ base + 16 ∧ (base + 20 < base + 32 ∨ _)
      omega
    · apply h.responses.publish
      · show w.answered.length < w.collected.length + n
        omega
      · show UInt32.toNat (Function.update w.mem _ _ _) = _
        rw [Function.update_self, toNat_advance hpos hsmall]
        rfl
      · intro x _ hx
        exact Function.update_of_ne hx _ _
    · show (w.answered ++ [_]).length ≤ w.taken.length
      rw [List.length_append, List.length_singleton]
      omega
  | elsewhere a v =>
    simp only [Mailbox.firmware, Option.ite_none_right_eq_some, Option.some.injEq] at he
    obtain ⟨haway, rfl⟩ := he
    constructor
    · apply requests_frame h.requests
      omega
    · apply responses_frame h.responses
      omega
    · exact h.answers

/-! ## What the driver relies on -/

/-- What the firmware leaves alone while the driver is in the middle of a call. -/
structure Keeps (base n : Nat) (w w' : Mailbox) : Prop where
  counters : w'.mem base = w.mem base ∧ w'.mem (base + 4) = w.mem (base + 4)
  slots : ∀ x, base + 32 ≤ x → x < base + 32 + 32 * n → w'.mem x = w.mem x
  own : w'.published = w.published ∧ w'.collected = w.collected ∧ w'.lag = w.lag
  seen : w'.full = w.full ∧ w'.ready = w.ready ∧ w'.began = w.began
  taken : w.taken.length ≤ w'.taken.length
  answered : w.answered <+: w'.answered

theorem Keeps.refl (w : Mailbox) : Keeps base n w w :=
  ⟨⟨rfl, rfl⟩, fun _ _ _ => rfl, ⟨rfl, rfl, rfl⟩, ⟨rfl, rfl, rfl⟩, Nat.le_refl _, List.prefix_rfl⟩

theorem Keeps.trans {u v w : Mailbox} (h : Keeps base n u v) (h' : Keeps base n v w) : Keeps base n u w where
  counters := ⟨h'.counters.1.trans h.counters.1, h'.counters.2.trans h.counters.2⟩
  slots x hlow hhigh := (h'.slots x hlow hhigh).trans (h.slots x hlow hhigh)
  own := ⟨h'.own.1.trans h.own.1, h'.own.2.1.trans h.own.2.1, h'.own.2.2.trans h.own.2.2⟩
  seen := ⟨h'.seen.1.trans h.seen.1, h'.seen.2.1.trans h.seen.2.1, h'.seen.2.2.trans h.seen.2.2⟩
  taken := h.taken.trans h'.taken
  answered := h.answered.trans h'.answered

/-- A move of the firmware leaves alone what the driver relies on. -/
theorem firmware_keeps {m : FirmwareMove} (he : w.firmware base n m = some w') :
    Keeps base n w w' := by
  have hword : ∀ {a : Nat} {v : UInt32} {x : Nat}, x ≠ a → Function.update w.mem a v x = w.mem x :=
    fun hne => Function.update_of_ne hne _ _
  cases m with
  | take =>
    simp only [Mailbox.firmware, Option.ite_none_right_eq_some, Option.some.injEq] at he
    obtain ⟨-, rfl⟩ := he
    refine ⟨⟨hword ?_, hword ?_⟩, fun x hlow _ => hword ?_, ⟨rfl, rfl, rfl⟩, ⟨rfl, rfl, rfl⟩, ?_, List.prefix_rfl⟩
    · show base ≠ base + 16
      omega
    · show base + 4 ≠ base + 16
      omega
    · show x ≠ base + 16
      omega
    · show w.taken.length ≤ (w.taken ++ [_]).length
      simp
  | compose j v =>
    simp only [Mailbox.firmware, Option.ite_none_right_eq_some, Option.some.injEq] at he
    obtain ⟨-, rfl⟩ := he
    exact ⟨⟨hword (by omega), hword (by omega)⟩, fun x _ _ => hword (by omega), ⟨rfl, rfl, rfl⟩,
      ⟨rfl, rfl, rfl⟩, Nat.le_refl _, List.prefix_rfl⟩
  | answer =>
    simp only [Mailbox.firmware, Option.ite_none_right_eq_some, Option.some.injEq] at he
    obtain ⟨-, rfl⟩ := he
    refine ⟨⟨hword ?_, hword ?_⟩, fun x hlow _ => hword ?_, ⟨rfl, rfl, rfl⟩, ⟨rfl, rfl, rfl⟩, Nat.le_refl _,
      List.prefix_append _ _⟩
    · show base ≠ base + 20
      omega
    · show base + 4 ≠ base + 20
      omega
    · show x ≠ base + 20
      omega
  | elsewhere a v =>
    simp only [Mailbox.firmware, Option.ite_none_right_eq_some, Option.some.injEq] at he
    obtain ⟨haway, rfl⟩ := he
    exact ⟨⟨hword (by omega), hword (by omega)⟩, fun x _ _ => hword (by omega), ⟨rfl, rfl, rfl⟩,
      ⟨rfl, rfl, rfl⟩, Nat.le_refl _, List.prefix_rfl⟩

/-! ## What the driver does -/

theorem Sound.look (h : w.Sound base n) (a : Nat) : (w.look base n a).Sound base n := by
  unfold Mailbox.look
  split
  · exact ⟨h.requests, h.responses, h.answers⟩
  · split
    · exact ⟨h.requests, h.responses, h.answers⟩
    · exact h

/-- A word that is none of the driver's counters. -/
theorem store_of_ne {a : Nat} (v : UInt32) (hw : a ≠ base) (hr : a ≠ base + 4) :
    w.store base n a v = { w with mem := Function.update w.mem a v } := by
  have hw : a ≠ (requestRing base n).writer := hw
  have hr : a ≠ (responseRing base n).reader := hr
  simp only [Mailbox.store, if_neg hw, if_neg hr]

/-- A word of the free slot of the request ring. -/
theorem Sound.store_slot (h : w.Sound base n) (hroom : w.published.length < w.taken.length + n) {j : Nat}
    (hj : j < 8) (v : UInt32) :
    ({ w with mem := Function.update w.mem (base + 32 + 32 * (requestRing base n).next w.mem + 4 * j) v } :
      Mailbox).Sound base n := by
  have hnext : (requestRing base n).next w.mem < n := h.requests.next_lt
  constructor
  · apply h.requests.fill hroom
    intro x _ hx
    apply Function.update_of_ne
    rintro rfl
    exact hx ⟨j, hj, rfl⟩
  · apply responses_frame h.responses
    omega
  · exact h.answers

/-- The driver's counter of the request ring, moved on while there is room. -/
theorem Sound.store_writer (h : w.Sound base n) (hroom : w.published.length < w.taken.length + n) {v : UInt32}
    (hv : v.toNat = RingQueue.advance n (w.mem base).toNat) : (w.store base n base v).Sound base n := by
  have hw : base = (requestRing base n).writer := rfl
  have hr : base ≠ (responseRing base n).reader := by
    show base ≠ base + 4
    omega
  simp only [Mailbox.store, if_pos hw, if_neg hr]
  constructor
  · apply h.requests.publish hroom
    · show UInt32.toNat (Function.update w.mem base v base) = _
      rw [Function.update_self]
      exact hv
    · intro x _ hx
      exact Function.update_of_ne hx _ _
  · apply responses_frame h.responses
    omega
  · exact h.answers

/-- The driver's counter of the response ring, moved on while something is there. -/
theorem Sound.store_reader (h : w.Sound base n) (hsome : w.collected.length < w.answered.length) {v : UInt32}
    (hv : v.toNat = RingQueue.advance n (w.mem (base + 4)).toNat) : (w.store base n (base + 4) v).Sound base n := by
  have hw : base + 4 ≠ (requestRing base n).writer := by
    show base + 4 ≠ base
    omega
  have hr : base + 4 = (responseRing base n).reader := rfl
  simp only [Mailbox.store, if_neg hw, if_pos hr]
  constructor
  · apply requests_frame h.requests
    omega
  · apply h.responses.take hsome
    · show UInt32.toNat (Function.update w.mem (base + 4) v (base + 4)) = _
      rw [Function.update_self]
      exact hv
    · intro x _ hx
      exact Function.update_of_ne hx _ _
  · exact h.answers

end Mailbox

/-! ## Mailboxes to start from -/

/-- A memory in which the request counters stand at `w` and `r`. -/
def countersAt (base w r : Nat) : Nat → UInt32 :=
  Function.update (Function.update (fun _ => 0) base (UInt32.ofNat w)) (base + 16) (UInt32.ofNat r)

/-- A mailbox whose request counters stand so, with whatever lies between them outstanding. -/
def standing (base n w r : Nat) : Mailbox where
  mem := countersAt base w r
  published := (requestRing base n).queue (countersAt base w r)
  began := ⟨(requestRing base n).queue (countersAt base w r), [], []⟩

theorem standing_sound {base n w r : Nat} (hpos : 0 < n) (hsmall : n ≤ 255) (hw : w < 2 * n) (hr : r < 2 * n)
    (hocc : RingQueue.occupancy n w r ≤ n) :
    (standing base n w r).Sound base n ∧ (requestRing base n).written (standing base n w r).mem = w ∧
      (requestRing base n).consumed (standing base n w r).mem = r := by
  have hword : ∀ {v : Nat}, v < 2 * n → (UInt32.ofNat v).toNat = v := fun {v} hv =>
    UInt32.toNat_ofNat_of_lt (by show v < 2 ^ 32; omega)
  have hother : ∀ {x : Nat}, x ≠ base → x ≠ base + 16 → countersAt base w r x = 0 := by
    intro x hx hx'
    rw [countersAt, Function.update_of_ne hx', Function.update_of_ne hx]
  have hwritten : (requestRing base n).written (standing base n w r).mem = w := by
    show (countersAt base w r base).toNat = w
    rw [countersAt, Function.update_of_ne (by omega), Function.update_self, hword hw]
  have hconsumed : (requestRing base n).consumed (standing base n w r).mem = r := by
    show (countersAt base w r (base + 16)).toNat = r
    rw [countersAt, Function.update_self, hword hr]
  have hidle : (responseRing base n).written (standing base n w r).mem = 0 ∧
      (responseRing base n).consumed (standing base n w r).mem = 0 :=
    ⟨congrArg UInt32.toNat (hother (x := base + 20) (by omega) (by omega)),
      congrArg UInt32.toNat (hother (x := base + 4) (by omega) (by omega))⟩
  refine ⟨⟨⟨?_, ?_, ?_, rfl⟩, ⟨?_, ?_, ?_, ?_⟩, Nat.le_refl 0⟩, hwritten, hconsumed⟩
  · rw [hwritten]
    exact hw
  · rw [hconsumed]
    exact hr
  · rw [RingBuffer.outstanding, hwritten, hconsumed]
    exact hocc
  · rw [hidle.1]
    exact Nat.mul_pos (by decide) hpos
  · rw [hidle.2]
    exact Nat.mul_pos (by decide) hpos
  · rw [RingBuffer.outstanding, hidle.1, hidle.2]
    show RingQueue.occupancy n 0 0 ≤ n
    rw [RingQueue.occupancy_of_le (by omega) (Nat.le_refl 0)]
    exact Nat.zero_le n
  · rw [RingBuffer.queue, hidle.1, hidle.2]
    show [] = [] ++ RingQueue.contents n _ 0 0
    rw [RingQueue.contents, RingQueue.occupancy_of_le (by omega) (Nat.le_refl 0)]
    rfl

/-! ## What a call may say -/

/-- The reply collected last went to the message published last, and so many responses to earlier
messages were due or uncollected when it was published. -/
structure Mailbox.Replied (w : Mailbox) (msg reply : ArcMsg) (before : List ArcMsg) : Prop where
  published : w.published = w.began.published ++ [msg]
  collected : w.collected = before ++ [reply]
  drained : w.began.collected <+: before
  lag : before.length + w.lag = w.began.published.length
  caught : w.began.answered.length ≤ before.length

/-- What a call that returns this did to the rings since it began. -/
def MailAnswer.Holds (a : MailAnswer) (w : Mailbox) : Prop :=
  match a with
  | .pushed msg status =>
    if w.full then status = .deviceBusy ∧ w.published = w.began.published
    else status = .success ∧ w.published = w.began.published ++ [msg]
  | .popped r =>
    if w.ready then ∃ reply, r = .ok reply ∧ w.collected = w.began.collected ++ [reply]
    else r = .error .deviceBusy ∧ w.collected = w.began.collected
  | .exchanged msg (.ok reply) => ∃ before, w.Replied msg reply before
  | .exchanged msg (.error status) =>
    (status = .deviceBusy ∧ w.full = true ∧ w.published = w.began.published) ∨
      (status = .ioTimeout ∧ w.ready = false ∧ w.published = w.began.published ++ [msg])

def MailOp.Holds : MailOp → Mailbox → Prop
  | .returns a, w => a.Holds w
  | _, _ => True

/-- What the calls of a run keep to: the operations allowed, and what holds between two calls. -/
structure MailTerms where
  allow : Unit → MailOp → Mailbox → Prop := anyStep (S := MailSig)
  idle : Mailbox → Prop := fun _ => True

/-- The driver relies on the firmware keeping `Mailbox.Keeps`, and says the truth about its calls. -/
def mailProtocol (terms : MailTerms) (base n : UInt32) : Protocol MailSig Unit Mailbox where
  allow := terms.allow
  inv L w := w.Sound base.toNat n.toNat ∧ (¬ L () → terms.idle w)
  rely _ := Mailbox.Keeps base.toNat n.toNat
  guar _ _ _ := True
  pre _ o w := o.Holds w
  post _ := terms.idle

end TtWind
