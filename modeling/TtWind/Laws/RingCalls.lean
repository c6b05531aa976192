import TtWind.Laws.Fifo

/-!
# A push and a pop against the firmware

What `TtWindArcTryPush` and `TtWindArcTryPop` do to the rings while the firmware moves between their
accesses, on a ring whose counters the 32-bit words wrap with. A push that looked while the ring was
full is refused, any other one publishes its message with the last store, all eight words standing
in the slot; a pop collects the oldest response, if there was one when it looked.
-/

set_option autoImplicit false

namespace TtWind

open TtWind.Effect TtWind.Effect.Prog TtWind.Effect.Protocol

/-- A specification of a piece of the driver's code. -/
abbrev MailTriple {α : Type} (terms : MailTerms) (base n : UInt32) (P : Mailbox → Prop) (p : Prog MailSig α)
    (Q : α → Mailbox → Prop) : Prop :=
  (mailProtocol terms base n).Triple (mailMachine base n) () P p Q

/-- No move of the firmware falsifies it. -/
abbrev MailStable (terms : MailTerms) (base n : UInt32) (P : Mailbox → Prop) : Prop := (mailProtocol terms base n).Stable () P

variable {terms : MailTerms} {base n : UInt32} {α β : Type}

theorem mail_steady : (mailProtocol terms base n).Steady :=
  ⟨fun _ w => Mailbox.Keeps.refl w, fun _ _ _ _ h h' => h.trans h'⟩

/-! ## Single operations -/

/-- What follows an answer that is known to be there. -/
theorem mail_of_ok {P : UInt32 → Mailbox → Prop} {f : Except NtStatus UInt32 → Prog MailSig α}
    {Q : α → Mailbox → Prop} (h : ∀ v, MailTriple terms base n (P v) (f (.ok v)) Q) (r : Except NtStatus UInt32) :
    MailTriple terms base n (fun w => ∃ v, r = .ok v ∧ P v w) (f r) Q := by
  rintro w ⟨v, rfl, hw⟩
  exact h v w hw

/-- What follows an answer that is known. -/
theorem mail_of_eq {x : α} {P : Mailbox → Prop} {f : α → Prog MailSig β} {Q : β → Mailbox → Prop}
    (h : MailTriple terms base n P (f x) Q) (r : α) : MailTriple terms base n (fun w => r = x ∧ P w) (f r) Q := by
  rintro w ⟨rfl, hw⟩
  exact h w hw

theorem mail_read {a : UInt32} {P : Mailbox → Prop} {Q : UInt32 → Mailbox → Prop} (ha : csmRejects a = false)
    (hP : MailStable terms base n P) (hQ : ∀ v, MailStable terms base n (Q v))
    (h : ∀ w, w.Sound base.toNat n.toNat → P w → Q (w.mem a.toNat) (w.look base.toNat n.toNat a.toNat)) :
    MailTriple terms base n P (Mail.csm (Csm.read a)) fun r w => ∃ v, r = .ok v ∧ Q v w := by
  have hprog : Mail.csm (Csm.read a) = perform (S := MailSig) (.csm (.read a)) :=
    handle_perform (S := CsmSig) _ (.read a)
  rw [hprog]
  refine Triple.vis (I := fun (r : Except NtStatus UInt32) w => ∃ v, r = .ok v ∧ Q v w) hP (fun _ _ _ => trivial) ?_ fun r =>
    Triple.pure ?_ fun _ => id
  · intro w L e x w₂ hw hlive hinv _ he
    have he : Mailbox.exec base.toNat n.toNat () (.csm (.read a)) e w = some (x, w₂) := he
    simp only [Mailbox.exec, ha, Bool.false_eq_true, if_false, Option.some.injEq, Prod.mk.injEq] at he
    obtain ⟨rfl, rfl⟩ := he
    exact ⟨⟨hinv.1.look _, fun hn => absurd hlive hn⟩, trivial, _, rfl, h w hinv.1 hw⟩
  · rintro w w₁ hr ⟨v, rfl, hw⟩
    exact ⟨v, rfl, hQ v w w₁ hr hw⟩

theorem mail_write {a v : UInt32} {P Q : Mailbox → Prop} (ha : csmRejects a = false) (hP : MailStable terms base n P)
    (hQ : MailStable terms base n Q) (h : ∀ w, w.Sound base.toNat n.toNat → P w →
      (w.store base.toNat n.toNat a.toNat v).Sound base.toNat n.toNat ∧ Q (w.store base.toNat n.toNat a.toNat v)) :
    MailTriple terms base n P (Mail.csm (Csm.write a v)) fun r w => r = .success ∧ Q w := by
  have hprog : Mail.csm (Csm.write a v) = perform (S := MailSig) (.csm (.write a v)) :=
    handle_perform (S := CsmSig) _ (.write a v)
  rw [hprog]
  refine Triple.vis (I := fun (r : NtStatus) w => r = .success ∧ Q w) hP (fun _ _ _ => trivial) ?_ fun r =>
    Triple.pure ?_ fun _ => id
  · intro w L e x w₂ hw hlive hinv _ he
    have he : Mailbox.exec base.toNat n.toNat () (.csm (.write a v)) e w = some (x, w₂) := he
    simp only [Mailbox.exec, ha, Bool.false_eq_true, if_false, Option.some.injEq, Prod.mk.injEq] at he
    obtain ⟨rfl, rfl⟩ := he
    obtain ⟨hsound, hq⟩ := h w hinv.1 hw
    exact ⟨⟨hsound, fun hn => absurd hlive hn⟩, trivial, rfl, hq⟩
  · rintro w w₁ hr ⟨rfl, hw⟩
    exact ⟨rfl, hQ w w₁ hr hw⟩

/-- The doorbell and the clock leave the mailbox as it is, and so does returning. -/
theorem mail_idle {o : MailOp} {P Q : Mailbox → Prop} (hP : MailStable terms base n P) (hQ : MailStable terms base n Q)
    (hpre : ∀ w, P w → o.Holds w)
    (hpost : ∀ w, w.Sound base.toNat n.toNat → P w → terms.allow () o w → Q w)
    (ho : ∀ e w x w', Mailbox.exec base.toNat n.toNat () o e w = some (x, w') → w' = w) :
    MailTriple terms base n P (perform (S := MailSig) o) fun _ => Q := by
  refine Triple.vis (I := fun _ => Q) hP (fun w hw _ => hpre w hw) ?_ fun _ => Triple.pure hQ fun _ => id
  intro w L e x w₂ hw _ hinv hallow he
  obtain rfl := ho e w x w₂ he
  exact ⟨hinv, trivial, hpost w₂ hinv.1 hw hallow⟩

/-- A counter in range is not what a lost device reads as. -/
theorem mail_readRingPtr {a : UInt32} {P : Mailbox → Prop} {Q : UInt32 → Mailbox → Prop}
    (ha : csmRejects a = false) (hP : MailStable terms base n P) (hQ : ∀ v, MailStable terms base n (Q v))
    (hlive : ∀ w, w.Sound base.toNat n.toNat → P w → w.mem a.toNat ≠ 0xFFFFFFFF)
    (h : ∀ w, w.Sound base.toNat n.toNat → P w → Q (w.mem a.toNat) (w.look base.toNat n.toNat a.toNat)) :
    MailTriple terms base n P (Mail.csm (Csm.readRingPtr a)) fun r w => ∃ v, r = .ok v ∧ Q v w := by
  unfold Mail.csm Csm.readRingPtr
  rw [handle_bind]
  have hread := mail_read (P := P) (Q := fun v w => v ≠ 0xFFFFFFFF ∧ Q v w) ha hP
    (fun v => Stable.const.and (hQ v)) fun w hw hp => ⟨hlive w hw hp, h w hw hp⟩
  refine hread.bind mail_steady (mail_of_ok fun v => Triple.assume (fun w hw => hw.1) fun hv => ?_)
  show MailTriple terms base n _ (Prog.handle _ (if v = 0xFFFFFFFF then _ else _)) _
  rw [if_neg hv]
  refine Triple.pure (Stable.const.and (hQ v)) fun w hw => ⟨v, rfl, hw.2⟩

/-! ## What is stable between two accesses -/

/-- What only the driver changes, in a call that began so. -/
structure Mailbox.At (L K : List ArcMsg) (l : Nat) (B : MailMark) (w : Mailbox) : Prop where
  published : w.published = L
  collected : w.collected = K
  lag : w.lag = l
  began : w.began = B
  answered : B.answered <+: w.answered

/-- The call began so, and what had been answered then still is. -/
def Mailbox.Since (B : MailMark) (w : Mailbox) : Prop := w.began = B ∧ B.answered <+: w.answered

section Stable

variable {L K : List ArcMsg} {l : Nat} {B : MailMark}

theorem stable_at : MailStable terms base n (Mailbox.At L K l B) := fun _ _ hr h =>
  ⟨hr.own.1.trans h.published, hr.own.2.1.trans h.collected, hr.own.2.2.trans h.lag, hr.seen.2.2.trans h.began,
    h.answered.trans hr.answered⟩

theorem stable_since : MailStable terms base n (Mailbox.Since B) := fun _ _ hr h =>
  ⟨hr.seen.2.2.trans h.1, h.2.trans hr.answered⟩

/-- What a call says stays true. -/
theorem stable_holds (a : MailAnswer) : MailStable terms base n a.Holds := by
  intro w w₁ hr h
  obtain ⟨hpublished, hcollected, hlag⟩ := hr.own
  obtain ⟨hfull, hready, hbegan⟩ := hr.seen
  cases a with
  | pushed msg status =>
    simp only [MailAnswer.Holds] at h ⊢
    rw [hfull, hpublished, hbegan]
    exact h
  | popped r =>
    simp only [MailAnswer.Holds] at h ⊢
    rw [hready, hcollected, hbegan]
    exact h
  | exchanged msg r =>
    cases r with
    | ok reply =>
      obtain ⟨before, h⟩ := h
      refine ⟨before, ?_, hcollected.trans h.collected, ?_, ?_, ?_⟩
      · rw [hpublished, hbegan]
        exact h.published
      · rw [hbegan]
        exact h.drained
      · rw [hbegan, hlag]
        exact h.lag
      · rw [hbegan]
        exact h.caught
    | error status =>
      simp only [MailAnswer.Holds] at h ⊢
      rw [hfull, hready, hpublished, hbegan]
      exact h

theorem stable_writer {v : UInt32} : MailStable terms base n fun w => w.mem base.toNat = v :=
  fun _ _ hr h => hr.counters.1.trans h

theorem stable_reader {v : UInt32} : MailStable terms base n fun w => w.mem (base.toNat + 4) = v :=
  fun _ _ hr h => hr.counters.2.trans h

theorem stable_full {b : Bool} : MailStable terms base n fun w => w.full = b := fun _ _ hr h => hr.seen.1.trans h

theorem stable_ready {b : Bool} : MailStable terms base n fun w => w.ready = b := fun _ _ hr h => hr.seen.2.1.trans h

theorem stable_room {k : Nat} : MailStable terms base n fun w => k < w.taken.length + n.toNat :=
  fun _ _ hr h => Nat.lt_of_lt_of_le h (Nat.add_le_add_right hr.taken _)

theorem stable_due {k : Nat} {m : ArcMsg} : MailStable terms base n fun w => w.answered[k]? = some m := by
  intro w w₁ hr h
  obtain ⟨rest, hrest⟩ := hr.answered
  show w₁.answered[k]? = some m
  rw [← hrest, List.getElem?_append_left (List.getElem?_eq_some_iff.mp h).1]
  exact h

theorem stable_slot {a : Nat} {vs : List UInt32} (hlow : base.toNat + 32 ≤ a)
    (hhigh : a + 4 * vs.length ≤ base.toNat + 32 + 32 * n.toNat) :
    MailStable terms base n fun w => ∀ j, (h : j < vs.length) → w.mem (a + 4 * j) = vs[j] := by
  intro w w₁ hr h j hj
  rw [hr.slots (a + 4 * j) (by omega) (by omega)]
  exact h j hj

end Stable

/-! ## The arithmetic of the counters -/

theorem wrapped_toNat (hring : Located base n) (w r : UInt32) :
    ((w - r) % (2 * n)).toNat = RingQueue.wrapped (2 ^ 32) n.toNat w.toNat r.toNat := by
  rw [UInt32.toNat_mod, UInt32.toNat_sub, hring.twice_toNat, RingQueue.wrapped, Nat.add_comm]

theorem advance_toNat (hring : Located base n) {v : UInt32} (hv : v.toNat < 2 * n.toNat) :
    ((v + 1) % (2 * n)).toNat = RingQueue.advance n.toNat v.toNat := by
  have hsmall := hring.small
  have h1 : (1 : UInt32).toNat = 1 := rfl
  rw [UInt32.toNat_mod, UInt32.toNat_add, hring.twice_toNat, RingQueue.advance, h1,
    Nat.mod_eq_of_lt (by omega : v.toNat + 1 < 2 ^ 32)]

/-- On a ring whose counters the words wrap with, the occupancy the code computes is the ring's. -/
theorem occupancy_toNat (hring : Located base n) (hpow : 2 * n.toNat ∣ 2 ^ 32) {w r : UInt32}
    (hw : w.toNat < 2 * n.toNat) (hr : r.toNat < 2 * n.toNat) :
    ((w - r) % (2 * n)).toNat = RingQueue.occupancy n.toNat w.toNat r.toNat := by
  rw [wrapped_toNat hring, RingQueue.wrapped_eq_occupancy hpow (by decide) hw hr]

/-- The counters of sound rings are in range. -/
theorem Mailbox.Sound.counters {w : Mailbox} {base n : Nat} (h : w.Sound base n) :
    (w.mem base).toNat < 2 * n ∧ (w.mem (base + 16)).toNat < 2 * n ∧
      (w.mem (base + 20)).toNat < 2 * n ∧ (w.mem (base + 4)).toNat < 2 * n :=
  ⟨h.requests.writer_lt, h.requests.reader_lt, h.responses.writer_lt, h.responses.reader_lt⟩

/-- No more responses are collected than requests were published. -/
theorem Mailbox.Sound.collected_le {w : Mailbox} {base n : Nat} (h : w.Sound base n) :
    w.collected.length ≤ w.published.length :=
  h.responses.isPrefix.length_le.trans (h.answers.trans h.requests.isPrefix.length_le)

/-- A counter in range is a live one. -/
theorem counter_live (hring : Located base n) {v : UInt32} (hv : v.toNat < 2 * n.toNat) : v ≠ 0xFFFFFFFF := by
  have hsmall := hring.small
  rintro rfl
  have hdead : (0xFFFFFFFF : UInt32).toNat = 4294967295 := rfl
  omega

/-! ## A push -/

section Push

variable {L K : List ArcMsg} {l : Nat} {B : MailMark}

/-- A push found room, its counter standing at `v`. -/
structure Mailbox.Pushing (base n : UInt32) (L K : List ArcMsg) (l : Nat) (B : MailMark) (v : UInt32)
    (w : Mailbox) : Prop where
  own : w.At L K l B
  counter : w.mem base.toNat = v
  full : w.full = false
  room : L.length < w.taken.length + n.toNat

theorem stable_pushing {v : UInt32} : MailStable terms base n (Mailbox.Pushing base n L K l B v) := fun w w₁ hr h =>
  ⟨stable_at w w₁ hr h.own, stable_writer w w₁ hr h.counter, stable_full w w₁ hr h.full,
    stable_room w w₁ hr h.room⟩

/-- The words `vs` stand from an address on. -/
def WordsAt (a : Nat) (vs : List UInt32) (w : Mailbox) : Prop := ∀ j, (h : j < vs.length) → w.mem (a + 4 * j) = vs[j]

theorem message_of_words {a : Nat} {msg : ArcMsg} {w : Mailbox} (h : WordsAt a msg.words w) :
    messageAt w.mem a = msg := by
  have hlen : msg.words.length = 8 := by simp [ArcMsg.words]
  have hhead : w.mem a = msg.header := h 0 (by omega)
  have hpayload : (fun i : Fin 7 => w.mem (a + 4 * (i + 1))) = msg.payload := by
    funext i
    rw [h (i + 1) (by omega)]
    simp only [ArcMsg.words, List.getElem_cons_succ, List.getElem_ofFn]
  rw [messageAt, hhead, hpayload]

/-- The words of the message go into the free slot, one by one. -/
theorem mail_writeWords (hring : Located base n) (h4 : base.toNat % 4 = 0) {v a : UInt32} {slot : Nat}
    (hslot : slot = base.toNat + 32 + 32 * (v.toNat % n.toNat)) (vs done : List UInt32)
    (ha : a.toNat = slot + 4 * done.length) (hlen : done.length + vs.length = 8) :
    MailTriple terms base n (fun w => w.Pushing base n L K l B v ∧ WordsAt slot done w)
      (Mail.csm (Csm.writeWords a vs))
      fun r w => r = .success ∧ w.Pushing base n L K l B v ∧ WordsAt slot (done ++ vs) w := by
  have hlow := hring.low
  have hhigh := hring.high
  have hindex : v.toNat % n.toNat < n.toNat := Nat.mod_lt _ hring.pos
  have hstable : ∀ {vs : List UInt32}, vs.length ≤ 8 → MailStable terms base n (WordsAt slot vs) :=
    fun _ => stable_slot (by omega) (by omega)
  induction vs generalizing a done with
  | nil =>
    rw [List.length_nil] at hlen
    show MailTriple terms base n _ (Pure.pure NtStatus.success) _
    refine Triple.pure (stable_pushing.and (hstable (by omega))) fun w hw => ?_
    rw [List.append_nil]
    exact ⟨rfl, hw⟩
  | cons x vs ih =>
    rw [List.length_cons] at hlen
    unfold Csm.writeWords Mail.csm
    rw [handle_bind]
    have hrej : csmRejects a = false := by
      rw [← Bool.not_eq_true, csmRejects_iff]
      omega
    have hwrite : MailTriple terms base n (fun w => w.Pushing base n L K l B v ∧ WordsAt slot done w)
        (Mail.csm (Csm.write a x))
        fun r w => r = .success ∧ w.Pushing base n L K l B v ∧ WordsAt slot (done ++ [x]) w := by
      apply mail_write hrej (stable_pushing.and (hstable (by omega)))
        (stable_pushing.and (hstable (by rw [List.length_append, List.length_singleton]; omega)))
      rintro w hsound ⟨hpush, hdone⟩
      have hnext : (requestRing base.toNat n.toNat).next w.mem = v.toNat % n.toNat :=
        congrArg (fun u : UInt32 => u.toNat % n.toNat) hpush.counter
      rw [ha, Mailbox.store_of_ne x (by omega) (by omega)]
      refine ⟨?_, ⟨⟨hpush.own.published, hpush.own.collected, hpush.own.lag, hpush.own.began, hpush.own.answered⟩, ?_, hpush.full,
        hpush.room⟩, ?_⟩
      · have hroom : w.published.length < w.taken.length + n.toNat := by
          rw [hpush.own.published]
          exact hpush.room
        have hstore := hsound.store_slot hroom (j := done.length) (by omega) x
        rwa [hnext, ← hslot] at hstore
      · show Function.update w.mem _ x base.toNat = v
        rw [Function.update_of_ne (by omega)]
        exact hpush.counter
      · intro j hj
        show Function.update w.mem _ x _ = _
        rw [List.length_append, List.length_singleton] at hj
        by_cases hlast : j = done.length
        · subst hlast
          simp
        · rw [Function.update_of_ne (by omega), hdone j (by omega), List.getElem_append_left]
    refine hwrite.bind mail_steady (mail_of_eq ?_)
    have hnext : (a + 4).toNat = a.toNat + 4 := by
      rw [UInt32.toNat_add]
      exact Nat.mod_eq_of_lt (by show a.toNat + 4 < 2 ^ 32; omega)
    have hrest := ih (a := a + 4) (done ++ [x])
      (by rw [List.length_append, List.length_singleton]; omega)
      (by rw [List.length_append, List.length_singleton]; omega)
    rw [List.append_assoc, List.singleton_append] at hrest
    exact hrest

/-- What a push saw of the request ring, its counter standing at `v` and the firmware's read as `r`. -/
structure Mailbox.Looked (base n : UInt32) (L K : List ArcMsg) (l : Nat) (B : MailMark) (v r : UInt32)
    (w : Mailbox) : Prop where
  own : w.At L K l B
  counter : w.mem base.toNat = v
  full : w.full = true ↔ n ≤ (v - r) % (2 * n)
  room : w.full = false → L.length < w.taken.length + n.toNat

theorem stable_looked {v r : UInt32} : MailStable terms base n (Mailbox.Looked base n L K l B v r) := by
  intro w w₁ hr h
  refine ⟨stable_at w w₁ hr h.own, stable_writer w w₁ hr h.counter, ?_, fun hfull => ?_⟩
  · rw [hr.seen.1]
    exact h.full
  · rw [hr.seen.1] at hfull
    exact stable_room w w₁ hr (h.room hfull)

theorem Mailbox.Sound.looked (hring : Located base n) (hpow : 2 * n.toNat ∣ 2 ^ 32) {v : UInt32} {w : Mailbox}
    (hsound : w.Sound base.toNat n.toNat) (hown : w.At L K l B) (hv : w.mem base.toNat = v) :
    (w.look base.toNat n.toNat (reqRptr base).toNat).Looked base n L K l B v (w.mem (reqRptr base).toNat) := by
  have haddr : (reqRptr base).toNat = (requestRing base.toNat n.toNat).reader := hring.header_toNat (by decide)
  obtain ⟨hwriter, hreader, -, -⟩ := hsound.counters
  have hlen := hsound.requests.length
  have hocc : ((v - w.mem (reqRptr base).toNat) % (2 * n)).toNat =
      (requestRing base.toNat n.toNat).outstanding w.mem := by
    rw [haddr, ← hv]
    exact occupancy_toNat hring hpow hwriter hreader
  have hfull : n ≤ (v - w.mem (reqRptr base).toNat) % (2 * n) ↔
      w.taken.length + n.toNat ≤ w.published.length := by
    rw [UInt32.le_iff_toNat_le, hocc]
    omega
  unfold Mailbox.look
  rw [if_pos haddr]
  refine ⟨⟨hown.published, hown.collected, hown.lag, hown.began, hown.answered⟩, hv, ?_, fun hroom => ?_⟩
  · rw [hfull]
    exact decide_eq_true_iff
  · rw [← hown.published]
    exact Nat.lt_of_not_le (of_decide_eq_false hroom)

/-- A push is refused if the ring was full when it looked, and else publishes the message. -/
structure Mailbox.Pushed (L K : List ArcMsg) (l : Nat) (B : MailMark) (msg : ArcMsg) (status : NtStatus)
    (w : Mailbox) : Prop where
  refused : w.full = true → status = .deviceBusy ∧ w.At L K l B
  published : w.full = false → status = .success ∧ w.At (L ++ [msg]) K (L.length - K.length) B ∧ K.length ≤ L.length

theorem stable_pushed {msg : ArcMsg} {status : NtStatus} :
    MailStable terms base n (Mailbox.Pushed L K l B msg status) := by
  intro w w₁ hr h
  constructor
  · intro hfull
    rw [hr.seen.1] at hfull
    exact ⟨(h.refused hfull).1, stable_at w w₁ hr (h.refused hfull).2⟩
  · intro hfull
    rw [hr.seen.1] at hfull
    exact ⟨(h.published hfull).1, stable_at w w₁ hr (h.published hfull).2.1, (h.published hfull).2.2⟩

/-- The last store of a push: the words stand in the slot, and the counter moves on. -/
theorem mail_publish (hring : Located base n) (h4 : base.toNat % 4 = 0) {v : UInt32} (msg : ArcMsg) :
    MailTriple terms base n
      (fun w => w.Pushing base n L K l B v ∧
        WordsAt (base.toNat + 32 + 32 * (v.toNat % n.toNat)) msg.words w)
      (Mail.csm (Csm.write (reqWptr base) ((v + 1) % (2 * n)))) (Mailbox.Pushed L K l B msg) := by
  have hhigh := hring.high
  have hlen : msg.words.length = 8 := by simp [ArcMsg.words]
  have hindex : v.toNat % n.toNat < n.toNat := Nat.mod_lt _ hring.pos
  have haddr : (reqWptr base).toNat = base.toNat := hring.header_toNat (by decide)
  have hwrite : MailTriple terms base n
      (fun w => w.Pushing base n L K l B v ∧
        WordsAt (base.toNat + 32 + 32 * (v.toNat % n.toNat)) msg.words w)
      (Mail.csm (Csm.write (reqWptr base) ((v + 1) % (2 * n))))
      fun r w => r = .success ∧ w.full = false ∧ w.At (L ++ [msg]) K (L.length - K.length) B ∧
        K.length ≤ L.length := by
    apply mail_write (aligned_header hring h4 (by decide) (by decide))
      (stable_pushing.and (stable_slot (by omega) (by omega)))
      (stable_full.and (stable_at.and Stable.const))
    rintro w hsound ⟨hpush, hwords⟩
    obtain ⟨hwriter, -, -, -⟩ := hsound.counters
    have hmessage : (requestRing base.toNat n.toNat).entry w.mem ((requestRing base.toNat n.toNat).next w.mem) =
        msg := by
      have hnext : (requestRing base.toNat n.toNat).next w.mem = v.toNat % n.toNat :=
        congrArg (fun u : UInt32 => u.toNat % n.toNat) hpush.counter
      rw [hnext]
      exact message_of_words hwords
    have hadvance : ((v + 1) % (2 * n)).toNat = RingQueue.advance n.toNat (w.mem base.toNat).toNat := by
      rw [hpush.counter] at hwriter ⊢
      exact advance_toNat hring hwriter
    have hroom : w.published.length < w.taken.length + n.toNat := by
      rw [hpush.own.published]
      exact hpush.room
    have hcollected := hsound.collected_le
    rw [hpush.own.collected, hpush.own.published] at hcollected
    show (w.store _ _ (reqWptr base).toNat _).Sound _ _ ∧ _ ∧
      Mailbox.At _ _ _ _ (w.store _ _ (reqWptr base).toNat _) ∧ _
    rw [haddr]
    refine ⟨hsound.store_writer hroom hadvance, hpush.full, ?_, hcollected⟩
    have howner : base.toNat = (requestRing base.toNat n.toNat).writer := rfl
    have hreader : base.toNat ≠ (responseRing base.toNat n.toNat).reader := by
      show base.toNat ≠ base.toNat + 4
      omega
    constructor
    · show (if base.toNat = (requestRing base.toNat n.toNat).writer then _ else _) = _
      rw [if_pos howner, hmessage, hpush.own.published]
    · show (if base.toNat = (responseRing base.toNat n.toNat).reader then _ else _) = _
      rw [if_neg hreader, hpush.own.collected]
    · show (if base.toNat = (requestRing base.toNat n.toNat).writer then _ else _) = _
      rw [if_pos howner, hpush.own.published, hpush.own.collected]
    · exact hpush.own.began
    · exact hpush.own.answered
  refine hwrite.weaken (fun _ => id) fun r w hw => ⟨fun hfull => ?_, fun _ => ⟨hw.1, hw.2.2⟩⟩
  rw [hw.2.1] at hfull
  cases hfull

theorem mail_tryPush (hring : Located base n) (h4 : base.toNat % 4 = 0) (hpow : 2 * n.toNat ∣ 2 ^ 32) (msg : ArcMsg) :
    MailTriple terms base n (Mailbox.At L K l B) (Mail.tryPush msg base n) (Mailbox.Pushed L K l B msg) := by
  have hwptr : (reqWptr base).toNat = base.toNat := hring.header_toNat (by decide)
  have hrptr : (reqRptr base).toNat = base.toNat + 16 := hring.header_toNat (by decide)
  have hrejw : csmRejects (reqWptr base) = false := aligned_header hring h4 (by decide) (by decide)
  have hrejr : csmRejects (reqRptr base) = false := aligned_header hring h4 (by decide) (by decide)
  have hlen : msg.words.length = 8 := by simp [ArcMsg.words]
  unfold Mail.tryPush Mail.csm Csm.tryPush
  rw [handle_bind]
  have hfirst : MailTriple terms base n (Mailbox.At L K l B) (Mail.csm (Csm.readRingPtr (reqWptr base)))
      fun r w => ∃ v, r = .ok v ∧ w.At L K l B ∧ w.mem base.toNat = v := by
    apply mail_readRingPtr hrejw stable_at (fun v => stable_at.and stable_writer)
    · intro w hsound _
      rw [hwptr]
      exact counter_live hring hsound.counters.1
    · intro w _ hown
      have hne : base.toNat ≠ (requestRing base.toNat n.toNat).reader := by
        show base.toNat ≠ base.toNat + 16
        omega
      have hne' : base.toNat ≠ (responseRing base.toNat n.toNat).writer := by
        show base.toNat ≠ base.toNat + 20
        omega
      rw [hwptr, Mailbox.look, if_neg hne, if_neg hne']
      exact ⟨hown, rfl⟩
  refine hfirst.bind mail_steady (mail_of_ok fun v => ?_)
  show MailTriple terms base n _ (Prog.handle _ (Csm.readRingPtr (reqRptr base) >>= _)) _
  rw [handle_bind]
  have hsecond : MailTriple terms base n (fun w => w.At L K l B ∧ w.mem base.toNat = v)
      (Mail.csm (Csm.readRingPtr (reqRptr base)))
      fun r w => ∃ u, r = .ok u ∧ w.Looked base n L K l B v u := by
    apply mail_readRingPtr hrejr (stable_at.and stable_writer) (fun u => stable_looked)
    · intro w hsound _
      rw [hrptr]
      exact counter_live hring hsound.counters.2.1
    · rintro w hsound ⟨hown, hv⟩
      exact hsound.looked hring hpow hown hv
  refine hsecond.bind mail_steady (mail_of_ok fun r => ?_)
  show MailTriple terms base n _ (Prog.handle _ (if n ≤ (v - r) % (2 * n) then _ else _)) _
  rw [handle_ite (S := CsmSig)]
  refine Triple.ite (fun hbusy => ?_) fun hroom => ?_
  · refine Triple.pure stable_looked fun w hw => ⟨fun _ => ⟨rfl, hw.own⟩, fun hfull => ?_⟩
    rw [hw.full.mpr hbusy] at hfull
    cases hfull
  · rw [handle_bind]
    have hindex : (v % n).toNat < n.toNat := hring.slot_lt v
    have hstart : (requestSlot base (v % n)).toNat = _ := hring.requestSlot_toNat hindex
    have hwords : MailTriple terms base n _ (Mail.csm (Csm.writeWords (requestSlot base (v % n)) msg.words)) _ :=
      mail_writeWords (L := L) (K := K) (l := l) (B := B) hring h4 (v := v) rfl msg.words []
        (by rw [hstart, UInt32.toNat_mod, List.length_nil]; omega) (by simp [hlen])
    refine Triple.weaken (hwords.bind mail_steady (mail_of_eq ?_)) (fun w hw => ?_) fun _ _ => id
    · exact mail_publish hring h4 msg
    · have hnotfull : w.full = false := by
        rw [← Bool.not_eq_true, hw.full]
        exact hroom
      exact ⟨⟨hw.own, hw.counter, hnotfull, hw.room hnotfull⟩, fun j hj => by cases hj⟩

end Push

/-! ## A pop -/

theorem ofWords_words (msg : ArcMsg) : ArcMsg.ofWords msg.words = msg := by
  have hpayload : (fun i : Fin 7 => msg.words.getD (i + 1) 0) = msg.payload := by
    funext i
    simp only [ArcMsg.words, List.getD_eq_getElem?_getD, List.getElem?_cons_succ, List.getElem?_ofFn, Fin.is_lt,
      ↓reduceDIte, Option.getD_some]
  rw [ArcMsg.ofWords, hpayload]
  rfl

/-- The words a message is read as, from one of them on. -/
theorem words_of_message {mem : Nat → UInt32} {a d : Nat} {msg : ArcMsg} (h : messageAt mem a = msg) (hd : d < 8) :
    msg.words.drop d = mem (a + 4 * d) :: msg.words.drop (d + 1) := by
  subst h
  have hlen : (messageAt mem a).words.length = 8 := by simp [ArcMsg.words]
  rw [List.drop_eq_getElem_cons (by omega)]
  apply congrArg (· :: _)
  cases d with
  | zero => rfl
  | succ d => simp only [ArcMsg.words, messageAt, List.getElem_cons_succ, List.getElem_ofFn]

section Pop

variable {L K : List ArcMsg} {l : Nat} {B : MailMark}

/-- What a pop saw of the response ring, its counter standing at `v` and the firmware's read as `u`. -/
structure Mailbox.Peeked (base n : UInt32) (L K : List ArcMsg) (l : Nat) (B : MailMark) (v u : UInt32)
    (w : Mailbox) : Prop where
  own : w.At L K l B
  counter : w.mem (base.toNat + 4) = v
  empty : w.ready = false ↔ (u - v) % (2 * n) = 0
  some : w.ready = true → K.length < w.answered.length
  none : w.ready = false → B.answered.length ≤ K.length

/-- A pop found the response `msg`. -/
structure Mailbox.Popping (base : UInt32) (L K : List ArcMsg) (l : Nat) (B : MailMark) (v : UInt32)
    (msg : ArcMsg) (w : Mailbox) : Prop where
  own : w.At L K l B
  counter : w.mem (base.toNat + 4) = v
  ready : w.ready = true
  due : w.answered[K.length]? = .some msg

/-- A pop finds nothing if nothing was there when it looked, and else collects the oldest response. -/
structure Mailbox.Popped (L K : List ArcMsg) (l : Nat) (B : MailMark) (r : Except NtStatus ArcMsg)
    (w : Mailbox) : Prop where
  nothing : w.ready = false → r = .error .deviceBusy ∧ w.At L K l B ∧ B.answered.length ≤ K.length
  collected : w.ready = true → ∃ msg, r = .ok msg ∧ w.At L (K ++ [msg]) l B

theorem stable_peeked {v u : UInt32} : MailStable terms base n (Mailbox.Peeked base n L K l B v u) := by
  intro w w₁ hr h
  refine ⟨stable_at w w₁ hr h.own, stable_reader w w₁ hr h.counter, ?_,
    fun hready => ?_, fun hready => ?_⟩
  · rw [hr.seen.2.1]
    exact h.empty
  · rw [hr.seen.2.1] at hready
    exact Nat.lt_of_lt_of_le (h.some hready) hr.answered.length_le
  · rw [hr.seen.2.1] at hready
    exact h.none hready

theorem stable_popping {v : UInt32} {msg : ArcMsg} : MailStable terms base n (Mailbox.Popping base L K l B v msg) :=
  fun w w₁ hr h => ⟨stable_at w w₁ hr h.own, stable_reader w w₁ hr h.counter, stable_ready w w₁ hr h.ready,
    stable_due w w₁ hr h.due⟩

theorem stable_popped {r : Except NtStatus ArcMsg} : MailStable terms base n (Mailbox.Popped L K l B r) := by
  intro w w₁ hr h
  constructor
  · intro hready
    rw [hr.seen.2.1] at hready
    obtain ⟨hr', hown, hA⟩ := h.nothing hready
    exact ⟨hr', stable_at w w₁ hr hown, hA⟩
  · intro hready
    rw [hr.seen.2.1] at hready
    obtain ⟨msg, hr', hown⟩ := h.collected hready
    exact ⟨msg, hr', stable_at w w₁ hr hown⟩

/-- While a response is due, the consumer's slot holds it. -/
theorem Mailbox.Popping.slot {v : UInt32} {msg : ArcMsg} {w : Mailbox} (h : w.Popping base L K l B v msg)
    (hsound : w.Sound base.toNat n.toNat) :
    messageAt w.mem (base.toNat + 32 + 32 * n.toNat + 32 * (v.toNat % n.toNat)) = msg := by
  have hlt : w.collected.length < w.answered.length := by
    rw [h.own.collected]
    exact (List.getElem?_eq_some_iff.mp h.due).1
  have hhead := hsound.responses.head hlt
  have hdue := h.due
  rw [hhead, ← h.own.collected, List.append_assoc, List.getElem?_append_right (Nat.le_refl _), Nat.sub_self,
    List.singleton_append, List.getElem?_cons_zero, Option.some.injEq] at hdue
  rw [← hdue, ← h.counter]
  rfl

/-- The words of the message are read one by one. -/
theorem mail_readWords (hring : Located base n) (h4 : base.toNat % 4 = 0) {v a : UInt32} (msg : ArcMsg)
    (k d : Nat) (ha : a.toNat = base.toNat + 32 + 32 * n.toNat + 32 * (v.toNat % n.toNat) + 4 * d)
    (hlen : d + k = 8) :
    MailTriple terms base n (Mailbox.Popping base L K l B v msg) (Mail.csm (Csm.readWords a k))
      fun r w => r = .ok (msg.words.drop d) ∧ w.Popping base L K l B v msg := by
  have hlow := hring.low
  have hhigh := hring.high
  have hindex : v.toNat % n.toNat < n.toNat := Nat.mod_lt _ hring.pos
  induction k generalizing a d with
  | zero =>
    show MailTriple terms base n _ (Pure.pure (Except.ok [])) _
    refine Triple.pure stable_popping fun w hw => ⟨?_, hw⟩
    rw [List.drop_of_length_le (by simp [ArcMsg.words]; omega)]
  | succ k ih =>
    unfold Csm.readWords Mail.csm
    rw [handle_bind]
    have hrej : csmRejects a = false := by
      rw [← Bool.not_eq_true, csmRejects_iff]
      omega
    have hread : MailTriple terms base n (Mailbox.Popping base L K l B v msg) (Mail.csm (Csm.read a))
        fun r w => ∃ x, r = .ok x ∧ msg.words.drop d = x :: msg.words.drop (d + 1) ∧
          w.Popping base L K l B v msg := by
      apply mail_read hrej stable_popping (fun x => Stable.const.and stable_popping)
      intro w hsound hw
      have hslot := hw.slot hsound
      have hne : a.toNat ≠ (requestRing base.toNat n.toNat).reader := by
        show a.toNat ≠ base.toNat + 16
        omega
      have hne' : a.toNat ≠ (responseRing base.toNat n.toNat).writer := by
        show a.toNat ≠ base.toNat + 20
        omega
      rw [Mailbox.look, if_neg hne, if_neg hne', ha]
      exact ⟨words_of_message hslot (by omega), hw⟩
    refine hread.bind mail_steady (mail_of_ok fun x => Triple.assume (fun w hw => hw.1) fun hx => ?_)
    have hnext : (a + 4).toNat = a.toNat + 4 := by
      rw [UInt32.toNat_add]
      exact Nat.mod_eq_of_lt (by show a.toNat + 4 < 2 ^ 32; omega)
    show MailTriple terms base n _ (Prog.handle _ (Csm.readWords (a + 4) k >>= _)) _
    rw [handle_bind]
    have hrest := ih (a := a + 4) (d + 1) (by omega) (by omega)
    refine Triple.weaken (hrest.bind mail_steady (mail_of_eq ?_)) (fun w hw => hw.2) fun _ _ => id
    refine Triple.pure stable_popping fun w hw => ⟨?_, hw⟩
    rw [hx]

theorem Mailbox.Sound.peeked (hring : Located base n) (hpow : 2 * n.toNat ∣ 2 ^ 32) {v : UInt32} {w : Mailbox}
    (hsound : w.Sound base.toNat n.toNat) (hown : w.At L K l B) (hv : w.mem (base.toNat + 4) = v) :
    (w.look base.toNat n.toNat (resWptr base).toNat).Peeked base n L K l B v (w.mem (resWptr base).toNat) := by
  have haddr : (resWptr base).toNat = (responseRing base.toNat n.toNat).writer := hring.header_toNat (by decide)
  have hne : (resWptr base).toNat ≠ (requestRing base.toNat n.toNat).reader := by
    rw [haddr]
    show base.toNat + 20 ≠ base.toNat + 16
    omega
  obtain ⟨-, -, hwriter, hreader⟩ := hsound.counters
  have hlen := hsound.responses.length
  have hocc : ((w.mem (resWptr base).toNat - v) % (2 * n)).toNat =
      (responseRing base.toNat n.toNat).outstanding w.mem := by
    rw [haddr, ← hv]
    exact occupancy_toNat hring hpow hwriter hreader
  have hempty : (w.mem (resWptr base).toNat - v) % (2 * n) = 0 ↔ ¬ w.collected.length < w.answered.length := by
    rw [← UInt32.toNat_inj, hocc]
    show _ = 0 ↔ _
    omega
  unfold Mailbox.look
  rw [if_neg hne, if_pos haddr]
  refine ⟨⟨hown.published, hown.collected, hown.lag, hown.began, hown.answered⟩, hv, ?_, fun hready => ?_, fun hready => ?_⟩
  · rw [hempty]
    exact decide_eq_false_iff_not
  · rw [← hown.collected]
    exact of_decide_eq_true hready
  · have hnone := of_decide_eq_false hready
    have hgrown := hown.answered.length_le
    rw [hown.collected] at hnone
    omega

/-- The last store of a pop: the counter moves on, and the response is collected. -/
theorem mail_collect (hring : Located base n) (h4 : base.toNat % 4 = 0) {v : UInt32} (msg : ArcMsg) :
    MailTriple terms base n (Mailbox.Popping base L K l B v msg)
      (Mail.csm (Csm.write (resRptr base) ((v + 1) % (2 * n))))
      fun r w => r = .success ∧ w.ready = true ∧ w.At L (K ++ [msg]) l B := by
  have hrej : csmRejects (resRptr base) = false := aligned_header hring h4 (by decide) (by decide)
  have haddr : (resRptr base).toNat = base.toNat + 4 := hring.header_toNat (by decide)
  apply mail_write hrej stable_popping (stable_ready.and stable_at)
  intro w hsound hw
  obtain ⟨-, -, -, hreader⟩ := hsound.counters
  have hmessage : (responseRing base.toNat n.toNat).entry w.mem ((responseRing base.toNat n.toNat).oldest w.mem) =
      msg := by
    have holdest : (responseRing base.toNat n.toNat).oldest w.mem = v.toNat % n.toNat :=
      congrArg (fun u : UInt32 => u.toNat % n.toNat) hw.counter
    rw [holdest]
    exact hw.slot hsound
  have hadvance : ((v + 1) % (2 * n)).toNat = RingQueue.advance n.toNat (w.mem (base.toNat + 4)).toNat := by
    rw [hw.counter] at hreader ⊢
    exact advance_toNat hring hreader
  have hsome : w.collected.length < w.answered.length := by
    rw [hw.own.collected]
    exact (List.getElem?_eq_some_iff.mp hw.due).1
  rw [haddr]
  refine ⟨hsound.store_reader hsome hadvance, hw.ready, ?_⟩
  have hwriter : base.toNat + 4 ≠ (requestRing base.toNat n.toNat).writer := by
    show base.toNat + 4 ≠ base.toNat
    omega
  have howner : base.toNat + 4 = (responseRing base.toNat n.toNat).reader := rfl
  constructor
  · show (if base.toNat + 4 = (requestRing base.toNat n.toNat).writer then _ else _) = _
    rw [if_neg hwriter, hw.own.published]
  · show (if base.toNat + 4 = (responseRing base.toNat n.toNat).reader then _ else _) = _
    rw [if_pos howner, hmessage, hw.own.collected]
  · show (if base.toNat + 4 = (requestRing base.toNat n.toNat).writer then _ else _) = _
    rw [if_neg hwriter, hw.own.lag]
  · exact hw.own.began
  · exact hw.own.answered

theorem mail_tryPop (hring : Located base n) (h4 : base.toNat % 4 = 0) (hpow : 2 * n.toNat ∣ 2 ^ 32) :
    MailTriple terms base n (Mailbox.At L K l B) (Mail.tryPop base n)
      (Mailbox.Popped L K l B) := by
  have hrptr : (resRptr base).toNat = base.toNat + 4 := hring.header_toNat (by decide)
  have hwptr : (resWptr base).toNat = base.toNat + 20 := hring.header_toNat (by decide)
  have hrejr : csmRejects (resRptr base) = false := aligned_header hring h4 (by decide) (by decide)
  have hrejw : csmRejects (resWptr base) = false := aligned_header hring h4 (by decide) (by decide)
  unfold Mail.tryPop Mail.csm Csm.tryPop
  rw [handle_bind]
  have hfirst : MailTriple terms base n (Mailbox.At L K l B)
      (Mail.csm (Csm.readRingPtr (resRptr base)))
      fun r w => ∃ v, r = .ok v ∧ w.At L K l B ∧ w.mem (base.toNat + 4) = v := by
    apply mail_readRingPtr hrejr stable_at (fun v => stable_at.and stable_reader)
    · intro w hsound _
      rw [hrptr]
      exact counter_live hring hsound.counters.2.2.2
    · intro w _ hown
      have hne : base.toNat + 4 ≠ (requestRing base.toNat n.toNat).reader := by
        show base.toNat + 4 ≠ base.toNat + 16
        omega
      have hne' : base.toNat + 4 ≠ (responseRing base.toNat n.toNat).writer := by
        show base.toNat + 4 ≠ base.toNat + 20
        omega
      rw [hrptr, Mailbox.look, if_neg hne, if_neg hne']
      exact ⟨hown, rfl⟩
  refine hfirst.bind mail_steady (mail_of_ok fun v => ?_)
  show MailTriple terms base n _ (Prog.handle _ (Csm.readRingPtr (resWptr base) >>= _)) _
  rw [handle_bind]
  have hsecond : MailTriple terms base n
      (fun w => w.At L K l B ∧ w.mem (base.toNat + 4) = v)
      (Mail.csm (Csm.readRingPtr (resWptr base)))
      fun r w => ∃ u, r = .ok u ∧ w.Peeked base n L K l B v u := by
    apply mail_readRingPtr hrejw (stable_at.and stable_reader) (fun u => stable_peeked)
    · intro w hsound _
      rw [hwptr]
      exact counter_live hring hsound.counters.2.2.1
    · rintro w hsound ⟨hown, hv⟩
      exact hsound.peeked hring hpow hown hv
  refine hsecond.bind mail_steady (mail_of_ok fun u => ?_)
  show MailTriple terms base n _ (Prog.handle _ (if (u - v) % (2 * n) = 0 then _ else _)) _
  rw [handle_ite (S := CsmSig)]
  refine Triple.ite (fun hempty => ?_) fun hsome => ?_
  · refine Triple.pure stable_peeked fun w hw => ?_
    have hready := hw.empty.mpr hempty
    refine ⟨fun _ => ⟨rfl, hw.own, hw.none hready⟩, fun hr => ?_⟩
    rw [hready] at hr
    cases hr
  · rw [handle_bind]
    have hindex : (v % n).toNat < n.toNat := hring.slot_lt v
    have hstart : (responseSlot base n (v % n)).toNat = _ := hring.responseSlot_toNat hindex
    -- the response the firmware put out stays the oldest one until it is collected
    have hfound : ∀ w : Mailbox, w.Peeked base n L K l B v u → ∃ msg, w.Popping base L K l B v msg := by
      intro w hw
      have hready : w.ready = true := by
        rw [← Bool.not_eq_false, hw.empty]
        exact hsome
      exact ⟨_, hw.own, hw.counter, hready, List.getElem?_eq_getElem (hw.some hready)⟩
    intro w hw
    obtain ⟨msg, hmsg⟩ := hfound w hw
    have hwords : MailTriple terms base n _ (Mail.csm (Csm.readWords (responseSlot base n (v % n)) 8)) _ :=
      mail_readWords (L := L) (K := K) (l := l) (B := B) hring h4 (v := v) msg 8 0
        (by rw [hstart, UInt32.toNat_mod]; omega) rfl
    refine hwords.bind mail_steady (mail_of_eq ?_) w hmsg
    show MailTriple terms base n _ (Prog.handle _ (Csm.write (resRptr base) ((v + 1) % (2 * n)) >>= _)) _
    rw [handle_bind]
    refine (mail_collect hring h4 msg).bind mail_steady (mail_of_eq ?_)
    refine Triple.pure (stable_ready.and stable_at) fun w hw =>
      ⟨fun hr => ?_, fun _ => ⟨msg, ?_, hw.2⟩⟩
    · rw [hw.1] at hr
      cases hr
    · rw [List.drop_zero, ofWords_words]

end Pop

end TtWind
