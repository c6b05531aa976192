import TtWind.Laws.Correlation

/-!
# Which rings the code can use

The occupancy `TtWindArcTryPush` computes wraps at 2^32, so it is the ring's exactly if the ring has a
power of two entries. On any other ring that `TtWindArcLocateQueue` accepts, the counters can
stand so that a push is refused although there is room, or goes through although the ring is full.

The pushes are those of `mailbox`, and so of `arc.c` by `mail_tryPush_eq`.
-/

set_option autoImplicit false

namespace TtWind

open TtWind.Effect TtWind.Effect.Prog TtWind.Effect.Protocol

/-! ## A push alone -/

section Alone

variable {base n : UInt32}

theorem solo_readRingPtr {base a : UInt32} {w : Mailbox} (ha : csmRejects a = false) (hlive : w.mem a.toNat ≠ 0xFFFFFFFF) :
    Solo (mailMachine base n) () (Mail.csm (Csm.readRingPtr a)) w (.ok (w.mem a.toNat))
      (w.look base.toNat n.toNat a.toNat) := by
  have hread : (mailMachine base n).exec () (.csm (.read a)) 0 w =
      some (.ok (w.mem a.toNat), w.look base.toNat n.toNat a.toNat) := by
    show Mailbox.exec base.toNat n.toNat () (.csm (.read a)) 0 w = _
    simp only [Mailbox.exec, ha, Bool.false_eq_true, if_false]
  apply Solo.vis hread
  show Solo _ () (Prog.handle _ (if w.mem a.toNat = 0xFFFFFFFF then _ else _)) _ _ _
  rw [if_neg hlive]
  exact .pure _ _

theorem solo_write {a v : UInt32} {w : Mailbox} (ha : csmRejects a = false) :
    Solo (mailMachine base n) () (Mail.csm (Csm.write a v)) w .success (w.store base.toNat n.toNat a.toNat v) := by
  have hwrite : (mailMachine base n).exec () (.csm (.write a v)) 0 w =
      some (NtStatus.success, w.store base.toNat n.toNat a.toNat v) := by
    show Mailbox.exec base.toNat n.toNat () (.csm (.write a v)) 0 w = _
    simp only [Mailbox.exec, ha, Bool.false_eq_true, if_false]
  exact Solo.vis hwrite (.pure _ _)

theorem solo_writeWords {a : UInt32} {vs : List UInt32} (ha : Taken a vs.length) (w : Mailbox) :
    ∃ w', Solo (mailMachine base n) () (Mail.csm (Csm.writeWords a vs)) w .success w' ∧ w'.full = w.full := by
  induction vs generalizing a w with
  | nil => exact ⟨w, .pure _ _, rfl⟩
  | cons v vs ih =>
    obtain ⟨w', hrest, hfull⟩ := ih ha.2 (w.store base.toNat n.toNat a.toNat v)
    refine ⟨w', ?_, hfull⟩
    unfold Csm.writeWords Mail.csm
    rw [handle_bind]
    exact Solo.bind_iff.mpr ⟨.success, _, solo_write ha.1, hrest⟩

/-- A push goes by the occupancy it computes, and looks at the occupancy there is. -/
theorem solo_tryPush (hring : Located base n) (h4 : base.toNat % 4 = 0) (msg : ArcMsg) {w : Mailbox}
    (hsound : w.Sound base.toNat n.toNat) :
    ∃ status w', Solo (mailMachine base n) () (Mail.tryPush msg base n) w status w' ∧
      (status = .deviceBusy ↔
        n.toNat ≤ RingQueue.wrapped (2 ^ 32) n.toNat ((requestRing base.toNat n.toNat).written w.mem)
          ((requestRing base.toNat n.toNat).consumed w.mem)) ∧
      (w'.full = true ↔ w.taken.length + n.toNat ≤ w.published.length) := by
  have hlow := hring.low
  have hhigh := hring.high
  have hwptr : (reqWptr base).toNat = base.toNat := hring.header_toNat (by decide)
  have hrptr : (reqRptr base).toNat = base.toNat + 16 := hring.header_toNat (by decide)
  have hrejw : csmRejects (reqWptr base) = false := aligned_header hring h4 (by decide) (by decide)
  have hrejr : csmRejects (reqRptr base) = false := aligned_header hring h4 (by decide) (by decide)
  have hfirst : Solo (mailMachine base n) () (Mail.csm (Csm.readRingPtr (reqWptr base))) w _ _ :=
    solo_readRingPtr hrejw (by
      rw [hwptr]
      exact counter_live hring hsound.counters.1)
  have hlook : w.look base.toNat n.toNat (reqWptr base).toNat = w := by
    have hne : base.toNat ≠ (requestRing base.toNat n.toNat).reader := by
      show base.toNat ≠ base.toNat + 16
      omega
    have hne' : base.toNat ≠ (responseRing base.toNat n.toNat).writer := by
      show base.toNat ≠ base.toNat + 20
      omega
    rw [hwptr, Mailbox.look, if_neg hne, if_neg hne']
  have hsecond : Solo (mailMachine base n) () (Mail.csm (Csm.readRingPtr (reqRptr base))) w _ _ :=
    solo_readRingPtr hrejr (by
      rw [hrptr]
      exact counter_live hring hsound.counters.2.1)
  rw [hlook] at hfirst
  have hseen : (w.look base.toNat n.toNat (reqRptr base).toNat).full = true ↔
      w.taken.length + n.toNat ≤ w.published.length := by
    have heq : (reqRptr base).toNat = (requestRing base.toNat n.toNat).reader := hrptr
    rw [Mailbox.look, if_pos heq]
    exact decide_eq_true_iff
  have hcomputed : n ≤ (w.mem (reqWptr base).toNat - w.mem (reqRptr base).toNat) % (2 * n) ↔
      n.toNat ≤ RingQueue.wrapped (2 ^ 32) n.toNat ((requestRing base.toNat n.toNat).written w.mem)
        ((requestRing base.toNat n.toNat).consumed w.mem) := by
    rw [UInt32.le_iff_toNat_le, wrapped_toNat hring, hwptr, hrptr]
    rfl
  by_cases hbusy : n ≤ (w.mem (reqWptr base).toNat - w.mem (reqRptr base).toNat) % (2 * n)
  · refine ⟨.deviceBusy, _, ?_, iff_of_true rfl (hcomputed.mp hbusy), hseen⟩
    unfold Mail.tryPush Mail.csm Csm.tryPush
    rw [handle_bind]
    refine Solo.bind_iff.mpr ⟨_, _, hfirst, ?_⟩
    show Solo _ () (Prog.handle _ (Csm.readRingPtr (reqRptr base) >>= _)) _ _ _
    rw [handle_bind]
    refine Solo.bind_iff.mpr ⟨_, _, hsecond, ?_⟩
    show Solo _ () (Prog.handle _ (if _ then _ else _)) _ _ _
    rw [if_pos hbusy]
    exact .pure _ _
  · have hslot := hring.slot_lt (w.mem (reqWptr base).toNat)
    have hstart := hring.requestSlot_toNat hslot
    have hlen : msg.words.length = 8 := by simp [ArcMsg.words]
    have htaken : Taken (requestSlot base (w.mem (reqWptr base).toNat % n)) msg.words.length := by
      apply taken_of_within <;> omega
    obtain ⟨w', hwords, hfull⟩ : ∃ w', Solo (mailMachine base n) () _ _ _ w' ∧ _ :=
      solo_writeWords htaken (w.look base.toNat n.toNat (reqRptr base).toNat)
    refine ⟨.success, w'.store base.toNat n.toNat (reqWptr base).toNat ((w.mem (reqWptr base).toNat + 1) % (2 * n)),
      ?_, iff_of_false (fun h => by cases h) fun h => hbusy (hcomputed.mpr h), ?_⟩
    · unfold Mail.tryPush Mail.csm Csm.tryPush
      rw [handle_bind]
      refine Solo.bind_iff.mpr ⟨_, _, hfirst, ?_⟩
      show Solo _ () (Prog.handle _ (Csm.readRingPtr (reqRptr base) >>= _)) _ _ _
      rw [handle_bind]
      refine Solo.bind_iff.mpr ⟨_, _, hsecond, ?_⟩
      show Solo _ () (Prog.handle _ (if _ then _ else _)) _ _ _
      rw [if_neg hbusy, handle_bind]
      exact Solo.bind_iff.mpr ⟨.success, w', hwords, solo_write hrejw⟩
    · rw [← hseen, ← hfull]
      rfl

/-- The same push, as a call of the mailbox. -/
theorem reach_pushed (hring : Located base n) (h4 : base.toNat % 4 = 0) (msg : ArcMsg) {w : Mailbox}
    (hsound : w.Sound base.toNat n.toNat) (hbegan : w.began = ⟨w.published, w.collected, w.answered⟩) :
    ∃ (c : Config MailSig Unit Mailbox) (status : NtStatus), Reach (anyMailbox base n) anyStep c ∧
      c.pool () = some (.vis (.returns (.pushed msg status)) .pure) ∧
      (status = .deviceBusy ↔
        n.toNat ≤ RingQueue.wrapped (2 ^ 32) n.toNat ((requestRing base.toNat n.toNat).written w.mem)
          ((requestRing base.toNat n.toNat).consumed w.mem)) ∧
      (c.world.full = true ↔ w.taken.length + n.toNat ≤ w.published.length) := by
  obtain ⟨status, w', hsolo, hbusy, hfull⟩ := solo_tryPush hring h4 msg hsound
  let called : Unit → Option (Prog MailSig Unit) :=
    Function.update (fun _ => none) () (some ((MailCall.push msg).code base n))
  have hsame : { w with began := ⟨w.published, w.collected, w.answered⟩ } = w := by
    rw [← hbegan]
  have hbegins : Reach (anyMailbox base n) anyStep ⟨w, called⟩ :=
    ⟨w, ⟨hsound, trivial⟩, .single (.begins rfl ⟨.push msg, rfl, hsame.symm⟩)⟩
  have hrun := hsolo.run (Y := anyMailbox base n)
    (fun status => perform (S := MailSig) (.returns (.pushed msg status))) called (Function.update_self ..)
  exact ⟨_, status, hbegins.run hrun, Config.set_pool_self .., hbusy, hfull⟩

end Alone

/-- A push tells a full ring from one with room exactly on a ring of a power of two entries. For every accepted
and aligned queue: that in every reachable state of the mailbox, for any calls and any firmware, a push that is
about to return was refused exactly if the ring was full when it looked, is so if and only if the number of
entries is a power of two. -/
theorem full_ring_told_iff {base n : UInt32} (hring : Located base n) (h4 : base.toNat % 4 = 0) :
    (∀ c : Config MailSig Unit Mailbox, Reach (anyMailbox base n) anyStep c → ∀ msg status k,
      c.pool () = some (.vis (.returns (.pushed msg status)) k) →
        (status = .deviceBusy ↔ c.world.full = true)) ↔ ∃ i, n.toNat = 2 ^ i := by
  have hbound : 2 * n.toNat ≤ 2 ^ 32 := by
    have hsmall := hring.small
    omega
  rw [← RingQueue.dvd_words_iff hring.pos hbound]
  constructor
  · intro htold
    by_contra hdvd
    have hsmall := hring.small
    obtain ⟨w, r, hw, hr, hocc, hwrong⟩ :=
      RingQueue.exists_wrapped_wrong (M := 2 ^ 32) hring.pos (by omega) hdvd
    obtain ⟨hsound, hwritten, hconsumed⟩ : (standing base.toNat n.toNat w r).Sound base.toNat n.toNat ∧ _ ∧ _ :=
      standing_sound hring.pos hsmall hw hr hocc
    obtain ⟨c, status, hreach, hreturns, hbusy, hfull⟩ := reach_pushed hring h4 {} hsound rfl
    have hsaid := htold c hreach {} status .pure hreturns
    have hlen : (standing base.toNat n.toNat w r).published.length = RingQueue.occupancy n.toNat w r := by
      have hlength := hsound.requests.length
      rw [RingBuffer.outstanding, hwritten, hconsumed] at hlength
      rw [hlength]
      exact Nat.zero_add _
    have hcount : (standing base.toNat n.toNat w r).taken.length = 0 := rfl
    rw [hbusy, hfull, hwritten, hconsumed, hlen, hcount, Nat.zero_add] at hsaid
    apply hwrong
    rw [hsaid]
    omega
  · intro hpow c hc msg status k hret
    have hholds := reach_holds hring h4 hpow hc hret
    simp only [MailAnswer.Holds] at hholds
    split at hholds
    · rename_i hfull
      exact iff_of_true hholds.1 hfull
    · rename_i hroom
      refine iff_of_false (fun hbusy => ?_) hroom
      rw [hholds.1] at hbusy
      cases hbusy

/-- A ring of three entries does not tell. -/
theorem full_ring_told_iff_three :
    ¬ ∀ c : Config MailSig Unit Mailbox, Reach (anyMailbox 0x10000000 3) anyStep c → ∀ msg status k,
      c.pool () = some (.vis (.returns (.pushed msg status)) k) →
        (status = .deviceBusy ↔ c.world.full = true) := by
  have hthree : Located 0x10000000 3 := ⟨by decide, by decide, by decide, by decide⟩
  rw [full_ring_told_iff hthree (by decide)]
  rintro ⟨i, hi⟩
  have hi : 3 = 2 ^ i := hi
  rcases i with _ | _ | i
  · omega
  · omega
  · rw [pow_succ, pow_succ] at hi
    omega

end TtWind
