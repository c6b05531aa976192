import TtWind.Laws.Exchange

/-!
# The mailbox over whole runs

The calls of `mailbox` keep to their specifications, so that the rings are queues in every reachable
state, whatever calls are made and however the firmware moves in between. From it: what a push, a pop
and an exchange say is true; a push is refused exactly when the ring is full if and only if the 32-bit
words wrap with the ring's counters; and whose reply an exchange returns.

That the calls of `mailbox` are those of `arc.c` is `mail_tryPush_eq`, `mail_tryPop_eq` and `exchange_eq`.
What is said here of the firmware is an assumption on it, its moves; that it answers at all is not.
-/

set_option autoImplicit false

namespace TtWind

open TtWind.Effect TtWind.Effect.Prog TtWind.Effect.Protocol

/-- Terms that the calls can keep: a call that returns as allowed leaves the mailbox idle. -/
structure MailTerms.Kept (terms : MailTerms) (base n : UInt32) : Prop where
  stable : MailStable terms base n terms.idle
  returns : ∀ a w w₀, terms.idle w₀ → w.Sound base.toNat n.toNat → a.Holds w →
    w.Since ⟨w₀.published, w₀.collected, w₀.answered⟩ → terms.allow () (.returns a) w → terms.idle w

section Calls

variable {terms : MailTerms} {base n : UInt32} (hring : Located base n) (h4 : base.toNat % 4 = 0)
  (hpow : 2 * n.toNat ∣ 2 ^ 32)

include hring h4 hpow

/-- A call keeps to its specification. -/
theorem mail_call (hterms : terms.Kept base n) (call : MailCall) {w₀ : Mailbox} (hidle : terms.idle w₀)
    (hsound : w₀.Sound base.toNat n.toNat) :
    MailTriple terms base n
      (Mailbox.At w₀.published w₀.collected w₀.lag ⟨w₀.published, w₀.collected, w₀.answered⟩)
      (call.code base n) fun _ => terms.idle := by
  have hreturns : ∀ a : MailAnswer, MailTriple terms base n
      (fun w => a.Holds w ∧ w.Since ⟨w₀.published, w₀.collected, w₀.answered⟩)
      (perform (S := MailSig) (.returns a)) fun _ => terms.idle := by
    intro a
    apply mail_idle (o := .returns a) ((stable_holds a).and stable_since) hterms.stable (fun w hw => hw.1)
    · intro w hs hw hallow
      exact hterms.returns a w w₀ hidle hs hw.1 hw.2 hallow
    · intro e w x w' he
      cases he
      rfl
  cases call with
  | push msg =>
    refine (mail_tryPush hring h4 hpow msg).bind mail_steady fun status => (hreturns _).weaken ?_ fun _ _ => id
    intro w hw
    simp only [MailAnswer.Holds]
    split
    · rename_i hfull
      obtain ⟨rfl, hown⟩ := hw.refused hfull
      exact ⟨⟨rfl, by rw [hown.published, hown.began]⟩, hown.began, hown.answered⟩
    · rename_i hroom
      obtain ⟨rfl, hown, -⟩ := hw.published (Bool.not_eq_true _ ▸ hroom)
      exact ⟨⟨rfl, by rw [hown.published, hown.began]⟩, hown.began, hown.answered⟩
  | pop =>
    refine (mail_tryPop hring h4 hpow).bind mail_steady fun r => (hreturns _).weaken ?_ fun _ _ => id
    intro w hw
    simp only [MailAnswer.Holds]
    split
    · rename_i hready
      obtain ⟨reply, rfl, hown⟩ := hw.collected hready
      exact ⟨⟨reply, rfl, by rw [hown.collected, hown.began]⟩, hown.began, hown.answered⟩
    · rename_i hempty
      obtain ⟨rfl, hown, -⟩ := hw.nothing (Bool.not_eq_true _ ▸ hempty)
      exact ⟨⟨rfl, by rw [hown.collected, hown.began]⟩, hown.began, hown.answered⟩
  | exchange msg =>
    have hA : w₀.answered.length ≤ w₀.collected.length + n.toNat := hsound.responses.bounded
    exact (mail_exchange (B := ⟨w₀.published, w₀.collected, w₀.answered⟩) hring h4 hpow msg hA).bind mail_steady
      fun r => hreturns _

theorem mail_sound (hterms : terms.Kept base n) :
    (mailProtocol terms base n).Sound (mailbox terms.idle base n) where
  toSteady := mail_steady
  initial w hw := ⟨hw.1, fun _ => hw.2⟩
  compat _ t t' _ _ _ _ hne := absurd (Subsingleton.elim t t') hne
  begins L t p w w' hb hnot hinv _ := by
    obtain ⟨call, rfl, rfl⟩ := hb
    obtain ⟨hsound, hidle⟩ := hinv
    refine ⟨⟨⟨hsound.requests, hsound.responses, hsound.answers⟩, fun hn => absurd (.inl rfl) hn⟩, ?_, ?_⟩
    · intro t' hlive
      exact absurd hlive hnot
    · exact mail_call hring h4 hpow hterms call (hidle hnot) hsound _
        ⟨rfl, rfl, rfl, rfl, List.prefix_rfl⟩
  ends L t w w' he hlive hinv _ hpost := by
    obtain rfl : w' = w := he
    exact ⟨⟨hinv.1, fun _ => hpost⟩, fun t' _ => Mailbox.Keeps.refl _⟩
  env L w w' he hinv _ := by
    obtain ⟨m, he⟩ := he
    have hkeeps := Mailbox.firmware_keeps he
    exact ⟨⟨hinv.1.firmware hring.small he, fun hn => hterms.stable w w' hkeeps (hinv.2 hn)⟩,
      fun _ _ => hkeeps⟩

end Calls

/-! ## Any calls -/

/-- Any calls may be made. -/
theorem anyTerms_kept (base n : UInt32) : ({} : MailTerms).Kept base n :=
  ⟨fun _ _ _ _ => trivial, fun _ _ _ _ _ _ _ _ => trivial⟩

/-- The driver's calls from any well-formed rings. -/
abbrev anyMailbox (base n : UInt32) : System MailSig Unit Nat Mailbox := mailbox (fun _ => True) base n

section Runs

variable {base n : UInt32} (hring : Located base n) (h4 : base.toNat % 4 = 0) (hpow : 2 * n.toNat ∣ 2 ^ 32)
  {c : Config MailSig Unit Mailbox}

include hring h4 hpow

theorem reach_mailSound (h : Reach (anyMailbox base n) anyStep c) : c.world.Sound base.toNat n.toNat :=
  ((mail_sound hring h4 hpow (anyTerms_kept base n)).good h).inv.1

theorem reach_holds (h : Reach (anyMailbox base n) anyStep c) {a : MailAnswer} {k : Unit → Prog MailSig Unit}
    (hret : c.pool () = some (.vis (.returns a) k)) : a.Holds c.world :=
  (mail_sound hring h4 hpow (anyTerms_kept base n)).about h hret trivial

end Runs

/-- The 32-bit words wrap with the counters of a ring of a power of two entries. -/
theorem Located.wraps {base n : UInt32} (hring : Located base n) (hpow : ∃ i, n.toNat = 2 ^ i) :
    2 * n.toNat ∣ 2 ^ 32 := by
  have hsmall := hring.small
  exact (RingQueue.dvd_words_iff hring.pos (by omega)).mpr hpow

/-! ### Calls on the smallest ring -/

/-- The smallest ring, at the start of the CSM. -/
theorem smallest_located : Located 0x10000000 1 := ⟨by decide, by decide, by decide, by decide⟩

theorem smallest_pow : ∃ i, (1 : UInt32).toNat = 2 ^ i := ⟨0, by decide⟩

theorem smallest_initial {start : Mailbox → Prop} (h : start (standing 0x10000000 1 0 0)) :
    (mailbox start 0x10000000 1).initial (standing 0x10000000 1 0 0) :=
  ⟨(standing_sound (by decide) (by decide) (by decide) (by decide) (by decide)).1, h⟩

/-- A message is pushed. -/
def pushOnce : List MailMove := [.begins (.push {}), .ops (List.replicate 11 0)]

/-- The firmware takes the request of an exchange and answers it with the header 7 before the first poll. -/
def serveOnce : List MailMove :=
  [.begins (.exchange {}), .ops (List.replicate 15 0), .firmware .take, .firmware (.compose 0 7), .firmware .answer,
    .ops (List.replicate 11 0)]

def MailAnswer.isAccepted : MailAnswer → Bool
  | .pushed _ .success => true
  | _ => false

def MailAnswer.isSeven : MailAnswer → Bool
  | .exchanged _ (.ok reply) => reply.header == 7
  | _ => false

theorem MailAnswer.of_isAccepted {a : MailAnswer} (h : a.isAccepted = true) : ∃ msg, a = .pushed msg .success := by
  unfold isAccepted at h
  split at h
  · exact ⟨_, rfl⟩
  · cases h

theorem MailAnswer.of_isSeven {a : MailAnswer} (h : a.isSeven = true) :
    ∃ msg reply, a = .exchanged msg (.ok reply) ∧ reply.header = 7 := by
  unfold isSeven at h
  split at h
  · exact ⟨_, _, rfl, beq_iff_eq.mp h⟩
  · cases h

/-- A push into the empty ring is accepted. -/
theorem reach_accepted : ∃ c msg k, Reach (anyMailbox 0x10000000 1) anyStep c ∧
    c.pool () = some (.vis (.returns (.pushed msg .success)) k) := by
  obtain ⟨c, a, k, hreach, hret, h⟩ : ∃ c a k, Reach (anyMailbox 0x10000000 1) anyStep c ∧
      c.pool () = some (.vis (.returns a) k) ∧ a.isAccepted = true := by
    apply MailConfig.reach_returning (fun _ _ _ => trivial) (smallest_initial trivial)
    show ((MailConfig.play _ _ pushOnce _).bind _).any _ = true
    decide
  obtain ⟨msg, rfl⟩ := MailAnswer.of_isAccepted h
  exact ⟨c, msg, k, hreach, hret⟩

/-- An exchange is served, in any system whose terms restrict only what calls return. -/
theorem reach_served {allow : Unit → MailOp → Mailbox → Prop} {start : Mailbox → Prop}
    (hallow : ∀ o w, o.isReturn = false → allow () o w) (hstart : start (standing 0x10000000 1 0 0)) :
    ∃ c msg reply k, Reach (mailbox start 0x10000000 1) allow c ∧
      c.pool () = some (.vis (.returns (.exchanged msg (.ok reply))) k) ∧ reply.header = 7 := by
  obtain ⟨c, a, k, hreach, hret, h⟩ : ∃ c a k, Reach (mailbox start 0x10000000 1) allow c ∧
      c.pool () = some (.vis (.returns a) k) ∧ a.isSeven = true := by
    apply MailConfig.reach_returning hallow (smallest_initial hstart)
    show ((MailConfig.play _ _ serveOnce _).bind _).any _ = true
    decide
  obtain ⟨msg, reply, rfl, hseven⟩ := MailAnswer.of_isSeven h
  exact ⟨c, msg, reply, k, hreach, hret, hseven⟩

section Rings

variable {base n : UInt32} (hring : Located base n) (h4 : base.toNat % 4 = 0) (hpow : ∃ i, n.toNat = 2 ^ i)
  {c : Config MailSig Unit Mailbox}

include hring h4 hpow

/-- The mailbox rings are bounded queues. On an accepted, aligned queue of a power of two entries, for every
interleaving of any calls with any firmware that keeps to its side of the rings: in every reachable state
each ring carries exactly what was put into it and not yet taken out, in order, at most `n` messages. A push that is about to return was refused if the ring was full when it looked, and
nothing was published; else its message alone was published. A pop found nothing if nothing was there when it
looked; else it returns the oldest response, which was taken out. -/
theorem mailbox_rings_are_queues (h : Reach (anyMailbox base n) anyStep c) :
    c.world.Sound base.toNat n.toNat ∧
    (∀ msg status k, c.pool () = some (.vis (.returns (.pushed msg status)) k) →
      (c.world.full = true ∧ status = .deviceBusy ∧ c.world.published = c.world.began.published) ∨
      (c.world.full = false ∧ status = .success ∧
        c.world.published = c.world.began.published ++ [msg])) ∧
    ∀ r k, c.pool () = some (.vis (.returns (.popped r)) k) →
      (c.world.ready = false ∧ r = .error .deviceBusy ∧ c.world.collected = c.world.began.collected) ∨
      ∃ reply, c.world.ready = true ∧ r = .ok reply ∧
        c.world.collected = c.world.began.collected ++ [reply] := by
  have hwraps := hring.wraps hpow
  refine ⟨reach_mailSound hring h4 hwraps h, fun msg status k hret => ?_, fun r k hret => ?_⟩
  · have hholds := reach_holds hring h4 hwraps h hret
    simp only [MailAnswer.Holds] at hholds
    split at hholds
    · exact .inl ⟨‹_›, hholds⟩
    · exact .inr ⟨Bool.not_eq_true _ ▸ ‹_›, hholds⟩
  · have hholds := reach_holds hring h4 hwraps h hret
    simp only [MailAnswer.Holds] at hholds
    split at hholds
    · obtain ⟨reply, hr, hcollected⟩ := hholds
      exact .inr ⟨reply, ‹_›, hr, hcollected⟩
    · exact .inl ⟨Bool.not_eq_true _ ▸ ‹_›, hholds⟩

end Rings

/-- The empty ring takes a message. -/
theorem mailbox_rings_are_queues_pushed : ∃ (c : MailConfig) (msg : ArcMsg),
    Reach (anyMailbox 0x10000000 1) anyStep c ∧ c.world.published = c.world.began.published ++ [msg] := by
  obtain ⟨c, msg, k, hreach, hret⟩ := reach_accepted
  have hqueues := mailbox_rings_are_queues smallest_located (by decide) smallest_pow hreach
  rcases hqueues.2.1 msg .success k hret with ⟨-, hbusy, -⟩ | ⟨-, -, hpublished⟩
  · cases hbusy
  · exact ⟨c, msg, hreach, hpublished⟩

section Rings

variable {base n : UInt32} (hring : Located base n) (h4 : base.toNat % 4 = 0) (hpow : ∃ i, n.toNat = 2 ^ i)
  {c : Config MailSig Unit Mailbox}

include hring h4 hpow

/-- Whose reply an exchange returns. The exchange published request number `i` and returns response
number `j`, the firmware's answer to request number `j`; `j` falls short of `i` by the responses that were due or
uncollected when the message was published. If the firmware had answered everything when the
exchange began, there were none. -/
theorem exchange_reply_number (h : Reach (anyMailbox base n) anyStep c) {msg reply : ArcMsg}
    {k : Unit → Prog MailSig Unit} (hret : c.pool () = some (.vis (.returns (.exchanged msg (.ok reply))) k)) :
    ∃ i j, c.world.published[i]? = some msg ∧ i + 1 = c.world.published.length ∧
      c.world.answered[j]? = some reply ∧ j + 1 = c.world.collected.length ∧
      c.world.taken[j]? = c.world.published[j]? ∧ j + c.world.lag = i ∧
      (c.world.began.answered.length = c.world.began.published.length → j = i) := by
  have hwraps := hring.wraps hpow
  have hsound := reach_mailSound hring h4 hwraps h
  obtain ⟨before, hreply⟩ := reach_holds hring h4 hwraps h hret
  have hlag := hreply.lag
  have hcaught := hreply.caught
  have hcollected : c.world.collected.length = before.length + 1 := by
    rw [hreply.collected, List.length_append, List.length_singleton]
  have hle := hsound.responses.isPrefix.length_le
  refine ⟨c.world.began.published.length, before.length, ?_, ?_, ?_, ?_, ?_, hlag, fun hall => by omega⟩
  · rw [hreply.published, List.getElem?_concat_length]
  · rw [hreply.published, List.length_append, List.length_singleton]
  · obtain ⟨rest, hrest⟩ := hsound.responses.isPrefix
    rw [← hrest, List.getElem?_append_left (by omega), hreply.collected, List.getElem?_concat_length]
  · exact hcollected.symm
  · obtain ⟨rest, hrest⟩ := hsound.requests.isPrefix
    have hanswers := hsound.answers
    rw [← hrest, List.getElem?_append_left (by omega)]

end Rings

/-- A reply with the header 7 is the firmware's answer to some request. -/
theorem exchange_reply_number_served : ∃ (c : MailConfig) (msg reply : ArcMsg) (k : Unit → Prog MailSig Unit) (j : Nat),
    Reach (anyMailbox 0x10000000 1) anyStep c ∧
    c.pool () = some (.vis (.returns (.exchanged msg (.ok reply))) k) ∧ reply.header = 7 ∧
    c.world.answered[j]? = some reply ∧ c.world.taken[j]? = c.world.published[j]? := by
  obtain ⟨c, msg, reply, k, hreach, hret, hseven⟩ : ∃ c msg reply k, Reach (anyMailbox 0x10000000 1) anyStep c ∧
      c.pool () = some (.vis (.returns (.exchanged msg (.ok reply))) k) ∧ reply.header = 7 :=
    reach_served (fun _ _ _ => trivial) trivial
  obtain ⟨i, j, -, -, hreply, -, htaken, -⟩ :=
    exchange_reply_number smallest_located (by decide) smallest_pow hreach hret
  exact ⟨c, msg, reply, k, j, hreach, hret, hseven, hreply, htaken⟩

/-! ## Calls that never give up on a response -/

/-- Every call that returns is an exchange that did not time out, and between two calls every request
published has been answered. -/
def promptTerms : MailTerms where
  allow _ o _ := ∀ a, o = .returns a → ∃ msg r, a = .exchanged msg r ∧ r ≠ .error .ioTimeout
  idle w := w.published.length ≤ w.answered.length

theorem promptTerms_kept (base n : UInt32) : promptTerms.Kept base n where
  stable w w₁ hr h := by
    show w₁.published.length ≤ w₁.answered.length
    rw [hr.own.1]
    exact Nat.le_trans h hr.answered.length_le
  returns a w w₀ hidle hsound hholds hsince hallow := by
    show w.published.length ≤ w.answered.length
    have hidle : w₀.published.length ≤ w₀.answered.length := hidle
    obtain ⟨hbegan, hanswered⟩ := hsince
    obtain ⟨msg, r, rfl, htime⟩ := hallow a rfl
    cases r with
    | ok reply =>
      obtain ⟨before, hreply⟩ := hholds
      have hcaught := hreply.caught
      have hle := hsound.responses.isPrefix.length_le
      rw [hbegan] at hcaught
      rw [hreply.collected, List.length_append, List.length_singleton] at hle
      rw [hreply.published, hbegan, List.length_append, List.length_singleton]
      have hcaught : w₀.answered.length ≤ before.length := hcaught
      show w₀.published.length + 1 ≤ w.answered.length
      omega
    | error status =>
      rcases hholds with ⟨-, -, hsame⟩ | ⟨rfl, -, -⟩
      · rw [hsame, hbegan]
        exact Nat.le_trans hidle hanswered.length_le
      · exact absurd rfl htime

section Prompt

variable {base n : UInt32} (hring : Located base n) (h4 : base.toNat % 4 = 0) {c : Config MailSig Unit Mailbox}

include hring h4

/-- Every call began with all requests answered. -/
theorem reach_began_idle (hpow : 2 * n.toNat ∣ 2 ^ 32)
    (h : Reach (mailbox promptTerms.idle base n) promptTerms.allow c) (hlive : c.live ()) :
    c.world.began.published.length ≤ c.world.began.answered.length := by
  obtain ⟨w, hw, hr⟩ := h
  induction hr with
  | refl => exact absurd rfl hlive
  | @tail c₁ c₂ hrun hs ih =>
    cases hs with
    | @begins t p w' hnone hb =>
      obtain ⟨call, -, rfl⟩ := hb
      have hgood := (mail_sound hring h4 hpow (promptTerms_kept base n)).good ⟨w, hw, hrun⟩
      exact hgood.inv.2 fun hl => hl hnone
    | @exec t o k e x w' hpool hallow he =>
      have hbegan : w'.began = c₁.world.began := by
        have he : Mailbox.exec base.toNat n.toNat t o e c₁.world = some (x, w') := he
        cases o with
        | csm o =>
          cases o with
          | read a =>
            simp only [Mailbox.exec] at he
            split at he
            · cases he
              rfl
            · cases he
              simp only [Mailbox.look]
              split
              · rfl
              · split <;> rfl
          | write a v =>
            simp only [Mailbox.exec] at he
            split at he
            · cases he
              rfl
            · cases he
              rfl
        | _ =>
          cases he
          rfl
      rw [Config.set_world, hbegan]
      exact ih fun hnone => by rw [hpool] at hnone; cases hnone
    | @ends t w' hpool he => exact absurd (Config.set_pool_self ..) hlive
    | env he =>
      obtain ⟨m, he⟩ := he
      show _ ≤ _
      rw [(Mailbox.firmware_keeps he).seen.2.2]
      exact ih hlive

/-- Without timeouts every reply is one's own. In every run from rings in which nothing is outstanding with the firmware, all of
whose finished calls are exchanges that did not time out, whatever the firmware's delays: an exchange
that is about to return a reply returns the firmware's answer to the request it published itself. -/
theorem replies_own_without_timeouts (hpow : ∃ i, n.toNat = 2 ^ i)
    (h : Reach (mailbox promptTerms.idle base n) promptTerms.allow c)
    {msg reply : ArcMsg} {k : Unit → Prog MailSig Unit}
    (hret : c.pool () = some (.vis (.returns (.exchanged msg (.ok reply))) k)) :
    ∃ i, c.world.published[i]? = some msg ∧ c.world.answered[i]? = some reply ∧
      i + 1 = c.world.published.length ∧ i + 1 = c.world.answered.length := by
  have hwraps := hring.wraps hpow
  have hprotocol := mail_sound hring h4 hwraps (promptTerms_kept base n)
  have hlive : c.live () := Protocol.Sound.live_of_pool hret
  have hsound := (hprotocol.good h).inv.1
  have hbegan := reach_began_idle hring h4 hwraps h hlive
  have hallow : promptTerms.allow () (.returns (.exchanged msg (.ok reply))) c.world := by
    intro a ha
    cases ha
    exact ⟨msg, .ok reply, rfl, fun hr => by cases hr⟩
  obtain ⟨before, hreply⟩ := hprotocol.about h hret hallow
  have hlag := hreply.lag
  have hcaught := hreply.caught
  have hle := hsound.responses.isPrefix.length_le
  have hanswers := hsound.answers.trans hsound.requests.isPrefix.length_le
  have hpublished : c.world.published.length = c.world.began.published.length + 1 := by
    rw [hreply.published, List.length_append, List.length_singleton]
  have hcollected : c.world.collected.length = before.length + 1 := by
    rw [hreply.collected, List.length_append, List.length_singleton]
  refine ⟨before.length, ?_, ?_, by omega, by omega⟩
  · have hsame : before.length = c.world.began.published.length := by omega
    rw [hreply.published, hsame, List.getElem?_concat_length]
  · obtain ⟨rest, hrest⟩ := hsound.responses.isPrefix
    rw [← hrest, List.getElem?_append_left (by omega), hreply.collected, List.getElem?_concat_length]

end Prompt

/-- The reply 7 is the firmware's answer to the request published last. -/
theorem replies_own_without_timeouts_served : ∃ (c : MailConfig) (msg reply : ArcMsg) (k : Unit → Prog MailSig Unit),
    Reach (mailbox promptTerms.idle 0x10000000 1) promptTerms.allow c ∧
    c.pool () = some (.vis (.returns (.exchanged msg (.ok reply))) k) ∧ reply.header = 7 ∧
    c.world.answered[c.world.published.length - 1]? = some reply := by
  obtain ⟨c, msg, reply, k, hreach, hret, hseven⟩ : ∃ c msg reply k,
      Reach (mailbox promptTerms.idle 0x10000000 1) promptTerms.allow c ∧
      c.pool () = some (.vis (.returns (.exchanged msg (.ok reply))) k) ∧ reply.header = 7 := by
    apply reach_served
    · intro o w ho a ha
      subst ha
      cases ho
    · exact Nat.le_refl 0
  obtain ⟨i, -, hreply, hlast, -⟩ :=
    replies_own_without_timeouts smallest_located (by decide) smallest_pow hreach hret
  refine ⟨c, msg, reply, k, hreach, hret, hseven, ?_⟩
  rw [← hlast]
  exact hreply

end TtWind
