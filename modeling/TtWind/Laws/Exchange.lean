import TtWind.Laws.RingCalls

/-!
# Whose reply an exchange returns

An exchange drains the response ring, publishes its message and collects the next response. The
firmware answers in order, so the reply belongs to the message exactly if no response to an earlier
one was due or uncollected when the message was published; this holds in particular if the firmware had
answered everything when the exchange began, since the drain then empties the ring.
-/

set_option autoImplicit false

namespace TtWind

open TtWind.Effect TtWind.Effect.Prog TtWind.Effect.Protocol

variable {terms : MailTerms} {base n : UInt32} {L K : List ArcMsg} {l : Nat} {B : MailMark}

theorem Mailbox.Popped.of_error {w : Mailbox} {status : NtStatus} (h : w.Popped L K l B (.error status)) :
    status = .deviceBusy ∧ w.ready = false ∧ w.At L K l B ∧ B.answered.length ≤ K.length := by
  cases hready : w.ready with
  | false =>
    obtain ⟨hr, hown, hA⟩ := h.nothing hready
    cases hr
    exact ⟨rfl, rfl, hown, hA⟩
  | true =>
    obtain ⟨msg, hr, -⟩ := h.collected hready
    cases hr

theorem Mailbox.Popped.of_ok {w : Mailbox} {msg : ArcMsg} (h : w.Popped L K l B (.ok msg)) :
    w.At L (K ++ [msg]) l B := by
  cases hready : w.ready with
  | false => cases (h.nothing hready).1
  | true =>
    obtain ⟨msg', hr, hown⟩ := h.collected hready
    cases hr
    exact hown

/-- The drain collects what was there when the call began, if it may pop often enough. -/
theorem mail_drain (hring : Located base n) (h4 : base.toNat % 4 = 0) (hpow : 2 * n.toNat ∣ 2 ^ 32) (i : Nat)
    (hA : B.answered.length ≤ K.length + i) :
    MailTriple terms base n (Mailbox.At L K l B) (Mail.drainResponses base n i)
      fun _ w => ∃ K', K <+: K' ∧ B.answered.length ≤ K'.length ∧ w.At L K' l B := by
  induction i generalizing K with
  | zero =>
    refine Triple.pure stable_at fun w hw => ?_
    exact ⟨K, List.prefix_rfl, hA, hw⟩
  | succ i ih =>
    unfold Mail.drainResponses
    refine (mail_tryPop hring h4 hpow).bind mail_steady fun r => ?_
    cases r with
    | error status =>
      refine Triple.pure stable_popped fun w hw => ?_
      obtain ⟨-, -, hown, hlen⟩ := hw.of_error
      exact ⟨K, List.prefix_rfl, hlen, hown⟩
    | ok msg =>
      have hrest := ih (K := K ++ [msg]) (by rw [List.length_append, List.length_singleton]; omega)
      refine hrest.weaken (fun w hw => hw.of_ok) fun _ w hw => ?_
      obtain ⟨K', hprefix, hlen, hown⟩ := hw
      exact ⟨K', (List.prefix_append K [msg]).trans hprefix, hlen, hown⟩

/-- What a response loop ends with. -/
def Mailbox.Polled (L K : List ArcMsg) (l : Nat) (B : MailMark) (r : Except NtStatus ArcMsg) (w : Mailbox) : Prop :=
  match r with
  | .ok msg => w.At L (K ++ [msg]) l B
  | .error status => status = .ioTimeout ∧ w.ready = false ∧ w.At L K l B

/-- One round of the response loop, given what it does when nothing was there. -/
theorem mail_pollRound (hring : Located base n) (h4 : base.toNat % 4 = 0) (hpow : 2 * n.toNat ∣ 2 ^ 32)
    {again : Prog MailSig (Except NtStatus ArcMsg)}
    (hagain : MailTriple terms base n (fun w => w.ready = false ∧ w.At L K l B) again (Mailbox.Polled L K l B)) :
    MailTriple terms base n (Mailbox.At L K l B) (Mail.pollRoundResponse base n again) (Mailbox.Polled L K l B) := by
  unfold Mail.pollRoundResponse
  refine (mail_tryPop hring h4 hpow).bind mail_steady fun r => ?_
  cases r with
  | ok msg => exact Triple.pure stable_popped fun w hw => hw.of_ok
  | error status =>
    refine Triple.assume (fun w hw => hw.of_error.1) fun hbusy => ?_
    subst hbusy
    exact hagain.weaken (fun w hw => ⟨hw.of_error.2.1, hw.of_error.2.2.1⟩) fun _ _ => id

theorem mail_pollResponse (hring : Located base n) (h4 : base.toNat % 4 = 0) (hpow : 2 * n.toNat ∣ 2 ^ 32)
    (polls : Nat) :
    MailTriple terms base n (Mailbox.At L K l B) (Mail.pollResponse base n polls) (Mailbox.Polled L K l B) := by
  induction polls with
  | zero =>
    apply mail_pollRound hring h4 hpow
    exact Triple.pure (stable_ready.and stable_at) fun w hw => ⟨rfl, hw⟩
  | succ polls ih =>
    apply mail_pollRound hring h4 hpow
    have hstall : MailTriple terms base n (Mailbox.At L K l B) (perform (S := MailSig) (.stall 200))
        fun _ => Mailbox.At L K l B := by
      apply mail_idle (o := .stall 200) stable_at stable_at (fun _ _ => trivial) (fun _ _ hw _ => hw)
      intro e w x w' he
      cases he
      rfl
    exact (hstall.bind mail_steady fun _ => ih).weaken (fun w hw => hw.2) fun _ _ => id

/-- An exchange on a queue whose earlier responses it could all drain. -/
theorem mail_exchange (hring : Located base n) (h4 : base.toNat % 4 = 0) (hpow : 2 * n.toNat ∣ 2 ^ 32) (msg : ArcMsg)
    (hA : B.answered.length ≤ B.collected.length + n.toNat) :
    MailTriple terms base n (Mailbox.At B.published B.collected l B) (Mail.exchange msg base n)
      fun r w => (MailAnswer.exchanged msg r).Holds w ∧ w.Since B := by
  unfold Mail.exchange
  refine (mail_drain hring h4 hpow n.toNat hA).bind mail_steady fun _ => ?_
  rintro w ⟨K, hprefix, hcaught, hown⟩
  refine Triple.bind mail_steady (mail_tryPush hring h4 hpow msg) (fun status => ?_) w hown
  refine Triple.ite (fun hfailed => ?_) fun hok => ?_
  · refine Triple.pure stable_pushed fun w hw => ?_
    cases hfull : w.full with
    | true =>
      obtain ⟨rfl, hown⟩ := hw.refused hfull
      exact ⟨.inl ⟨rfl, hfull, by rw [hown.published, hown.began]⟩, hown.began, hown.answered⟩
    | false =>
      obtain ⟨rfl, -⟩ := hw.published hfull
      cases hfailed
  · have hpushed : ∀ w : Mailbox, w.Pushed B.published K l B msg status →
        w.At (B.published ++ [msg]) K (B.published.length - K.length) B ∧ K.length ≤ B.published.length := by
      intro w hw
      cases hfull : w.full with
      | true =>
        obtain ⟨rfl, -⟩ := hw.refused hfull
        exact absurd rfl hok
      | false => exact (hw.published hfull).2
    refine Triple.assume (fun w hw => (hpushed w hw).2) fun hle => ?_
    refine Triple.weaken (P := Mailbox.At (B.published ++ [msg]) K (B.published.length - K.length) B) ?_
      (fun w hw => (hpushed w hw).1) fun _ _ => id
    have hbell : MailTriple terms base n (Mailbox.At (B.published ++ [msg]) K (B.published.length - K.length) B)
        (perform (S := MailSig) .doorbell) fun _ =>
          Mailbox.At (B.published ++ [msg]) K (B.published.length - K.length) B := by
      apply mail_idle (o := .doorbell) stable_at stable_at (fun _ _ => trivial) (fun _ _ hw _ => hw)
      intro e w x w' he
      cases he
      rfl
    have hclock : MailTriple terms base n (Mailbox.At (B.published ++ [msg]) K (B.published.length - K.length) B)
        (perform (S := MailSig) (.deadline arcMsgTimeoutMs)) fun _ =>
          Mailbox.At (B.published ++ [msg]) K (B.published.length - K.length) B := by
      apply mail_idle (o := .deadline arcMsgTimeoutMs) stable_at stable_at (fun _ _ => trivial) (fun _ _ hw _ => hw)
      intro e w x w' he
      cases he
      rfl
    refine hbell.bind mail_steady fun _ => hclock.bind mail_steady fun polls => ?_
    refine (mail_pollResponse hring h4 hpow polls).weaken (fun _ => id) fun r w hw => ?_
    cases r with
    | ok reply =>
      refine ⟨⟨K, ?_, hw.collected, ?_, ?_, ?_⟩, hw.began, hw.answered⟩
      · rw [hw.published, hw.began]
      · rw [hw.began]
        exact hprefix
      · rw [hw.began, hw.lag]
        omega
      · rw [hw.began]
        exact hcaught
    | error status =>
      obtain ⟨rfl, hready, hown⟩ := hw
      exact ⟨.inr ⟨rfl, hready, by rw [hown.published, hown.began]⟩, hown.began, hown.answered⟩

end TtWind
