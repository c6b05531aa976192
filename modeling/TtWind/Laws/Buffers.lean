import Mathlib.Data.Nat.Init
import TtWind.Effect.Follow
import TtWind.Laws.Calls
import TtWind.Laws.Programs
import TtWind.Laws.Schedule

/-!
# What a request may touch of its buffers

A handler learns from the framework that the buffers are long enough before it touches them, it
reads no input and writes no output beyond what it has checked, and it completes its request once,
at the very end, with no more bytes than it has written. `BufferUse` is what a history says of this,
and every handler obeys it. Of what the bytes mean nothing is said here.
-/

set_option autoImplicit false

namespace TtWind

open TtWind.Effect TtWind.Effect.Prog

/-- What a request has done: the bytes of its input and of its output it has found to be there, how
many bytes of the output, from the first on, it has written, and whether it is completed. -/
structure BufferUse where
  input : Nat := 0
  output : Nat := 0
  filled : Nat := 0
  done : Bool := false

namespace BufferUse

/-- After one operation. -/
def next (ev : Event) (s : BufferUse) : BufferUse :=
  match ev with
  | ⟨.inputBuffer len, status⟩ => if status.ok then { s with input := max s.input len } else s
  | ⟨.outputBuffer len, status⟩ => if status.ok then { s with output := max s.output len } else s
  | ⟨.outZero len, _⟩ => { s with filled := max s.filled len }
  | ⟨.outField off len _, _⟩ => if off ≤ s.filled then { s with filled := max s.filled (off + len) } else s
  | ⟨.complete _ _, _⟩ => { s with done := true }
  | _ => s

/-- An operation that stays within the buffers. An error is completed with no bytes. -/
def fits (s : BufferUse) : Op → Prop
  | .inField off len => off + len ≤ s.input
  | .outZero len => len ≤ s.output
  | .outField off len _ => off + len ≤ s.output
  | .complete status n => n ≤ s.filled ∧ (status.ok = false → n = 0)
  | _ => True

/-- The request is not completed yet, and the operation stays within the buffers. -/
def allows (s : BufferUse) (o : Op) : Prop := s.done = false ∧ s.fits o

end BufferUse

/-- From what it has done on, the program keeps to the buffers, and what it returns is as stated. -/
abbrev Obeys {α : Type} (s : BufferUse) (p : Drv α) (Q : BufferUse → α → Prop) : Prop :=
  p.Follows BufferUse.allows BufferUse.next Q s

/-- Operations that have nothing to do with the request. -/
def Op.Requestless : Op → Prop
  | .inputBuffer _ | .outputBuffer _ | .inField _ _ | .outZero _ | .outField _ _ _ | .complete _ _ => False
  | _ => True

section Programs

variable {α β : Type} {s : BufferUse} {Q : BufferUse → α → Prop}

/-- Silent operations are off the request, and so are those of a power callback. -/
theorem requestless_of_silent {o : Op} (h : o.silent) : o.Requestless := by
  cases o <;> trivial

theorem requestless_of_powerFoot {o : Op} (h : powerFoot o) : o.Requestless := by
  cases o <;> trivial

/-- What is off the request fits any use of the buffers, and leaves it. -/
theorem BufferUse.fits_of_requestless {o : Op} (ho : o.Requestless) : s.fits o := by
  cases o <;> trivial

theorem BufferUse.next_of_requestless {o : Op} (x : o.Ans) (ho : o.Requestless) : s.next ⟨o, x⟩ = s := by
  cases o <;> first | rfl | exact (ho : False).elim

/-- A part that has nothing to do with the request. -/
theorem obeys_of_only {p : Drv α} (hp : p.Only Op.Requestless) (hs : s.done = false) :
    Obeys s p fun s' _ => s' = s :=
  hp.follows (fun _ ho => ⟨hs, BufferUse.fits_of_requestless ho⟩) fun _ x => BufferUse.next_of_requestless x

/-- An operation off the request, in front. -/
theorem obeys_step {o : Op} {k : o.Ans → Drv α} (ho : o.Requestless) (hs : s.done = false)
    (hk : ∀ x, Obeys s (k x) Q) : Obeys s (.vis o k) Q := by
  refine ⟨⟨hs, BufferUse.fits_of_requestless ho⟩, fun x => ?_⟩
  rw [BufferUse.next_of_requestless x ho]
  exact hk x

theorem obeys_ite {c : Prop} [Decidable c] {p q : Drv α} (hp : Obeys s p Q) (hq : Obeys s q Q) :
    Obeys s (if c then p else q) Q :=
  Follows.ite (fun _ => hp) fun _ => hq

/-- The check of the input buffer. -/
theorem obeys_checkInput {len : Nat} {bad rest : NtStatus → Drv α} (hs : s.done = false)
    (hbad : ∀ status, Obeys s (bad status) Q)
    (hrest : ∀ status, Obeys { s with input := max s.input len } (rest status) Q) :
    Obeys s (.vis (.inputBuffer len) fun status => if !status.ok then bad status else rest status) Q := by
  refine ⟨⟨hs, trivial⟩, fun status => ?_⟩
  cases hok : status.ok with
  | false =>
    simp only [BufferUse.next, hok, Bool.false_eq_true, if_false, Bool.not_false, if_true]
    exact hbad status
  | true =>
    simp only [BufferUse.next, hok, if_true, Bool.not_true, Bool.false_eq_true, if_false]
    exact hrest status

/-- The check of the output buffer. -/
theorem obeys_checkOutput {len : Nat} {bad rest : NtStatus → Drv α} (hs : s.done = false)
    (hbad : ∀ status, Obeys s (bad status) Q)
    (hrest : ∀ status, Obeys { s with output := max s.output len } (rest status) Q) :
    Obeys s (.vis (.outputBuffer len) fun status => if !status.ok then bad status else rest status) Q := by
  refine ⟨⟨hs, trivial⟩, fun status => ?_⟩
  cases hok : status.ok with
  | false =>
    simp only [BufferUse.next, hok, Bool.false_eq_true, if_false, Bool.not_false, if_true]
    exact hbad status
  | true =>
    simp only [BufferUse.next, hok, if_true, Bool.not_true, Bool.false_eq_true, if_false]
    exact hrest status

/-- A field is read within the length that was checked. -/
theorem obeys_inField {off len : Nat} {k : Nat → Drv α} (hs : s.done = false) (hfits : off + len ≤ s.input)
    (hk : ∀ x, Obeys s (k x) Q) : Obeys s (.vis (.inField off len) k) Q :=
  ⟨⟨hs, hfits⟩, hk⟩

/-- The start of the output is zeroed, within the length that was checked, and is written from there on. -/
theorem obeys_outZero {len : Nat} {k : Unit → Drv α} (hs : s.done = false) (hfits : len ≤ s.output)
    (hk : Obeys { s with filled := max s.filled len } (k ()) Q) : Obeys s (.vis (.outZero len) k) Q :=
  ⟨⟨hs, hfits⟩, fun _ => hk⟩

/-- A field of a part of the output that is written already. -/
theorem obeys_outField {off len v : Nat} {k : Unit → Drv α} (hs : s.done = false) (hfilled : off + len ≤ s.filled)
    (hfits : s.filled ≤ s.output) (hk : Obeys s (k ()) Q) : Obeys s (.vis (.outField off len v) k) Q := by
  refine ⟨⟨hs, Nat.le_trans hfilled hfits⟩, fun _ => ?_⟩
  have hnext : s.next ⟨.outField off len v, ()⟩ = s := by
    have hoff : off ≤ s.filled := by omega
    simp only [BufferUse.next, if_pos hoff, Nat.max_eq_left hfilled]
  rw [hnext]
  exact hk

/-! ## Loops over the buffers -/

/-- Words are read one behind the other, as far as was checked. -/
theorem inWords_obeys {k off : Nat} (hs : s.done = false) (hfits : off + 4 * k ≤ s.input) :
    Obeys s (inWords off k) fun s' _ => s' = s := by
  induction k generalizing off with
  | zero => exact rfl
  | succ k ih =>
    refine obeys_inField hs (by omega) fun v => ?_
    exact (ih (show off + 4 + 4 * k ≤ s.input by omega)).still fun vs => rfl

/-- Dwords stored one after the other extend what is written. -/
theorem outWords_obeys {words : List UInt32} {off : Nat} (hs : s.done = false) (hnext : off ≤ s.filled)
    (hfits : off + 4 * words.length ≤ s.output) :
    Obeys s (outWords off words) fun s' _ => s' = { s with filled := max s.filled (off + 4 * words.length) } := by
  induction words generalizing s off with
  | nil =>
    show s = _
    simp [Nat.max_eq_left hnext]
  | cons v vs ih =>
    rw [List.length_cons] at hfits ⊢
    refine ⟨⟨hs, show off + 4 ≤ s.output by omega⟩, fun _ => ?_⟩
    have hstep : s.next ⟨.outField off 4 v.toNat, ()⟩ = { s with filled := max s.filled (off + 4) } := if_pos hnext
    show Obeys (s.next ⟨.outField off 4 v.toNat, ()⟩) (outWords (off + 4) vs) _
    rw [hstep]
    refine (ih (s := { s with filled := max s.filled (off + 4) }) hs (Nat.le_max_right _ _)
      (show off + 4 + 4 * vs.length ≤ s.output by omega)).mono fun s' _ hs' => ?_
    rw [hs']
    show BufferUse.mk .. = BufferUse.mk ..
    congr 1
    show max (max s.filled (off + 4)) (off + 4 + 4 * vs.length) = max s.filled (off + 4 * (vs.length + 1))
    omega

/-- Dwords that make up the whole output. -/
theorem outWords_all {words : List UInt32} {n : Nat} (hs : s.done = false) (hlen : 4 * words.length = n)
    (hfilled : s.filled ≤ n) (hfits : n ≤ s.output) :
    Obeys s (outWords 0 words) fun s' _ => s' = { s with filled := n } := by
  subst hlen
  have hends : 0 + 4 * words.length ≤ s.output := by omega
  refine (outWords_obeys hs (Nat.zero_le _) hends).mono fun s' _ hs' => ?_
  rw [hs', Nat.zero_add, Nat.max_eq_right hfilled]

/-- The output is written up to `n` bytes, all of which are there. -/
structure BufferUse.Replied (s : BufferUse) (n : Nat) : Prop where
  pending : s.done = false
  filled : s.filled = n
  fits : n ≤ s.output

/-- A field of a reply that was zeroed first. -/
theorem BufferUse.Replied.outField {n off len v : Nat} {k : Unit → Drv α} (h : s.Replied n) (hoff : off + len ≤ n)
    (hk : Obeys s (k ()) Q) : Obeys s (.vis (.outField off len v) k) Q :=
  obeys_outField h.pending (h.filled ▸ hoff) (h.filled ▸ h.fits) hk

/-- The parts of the replies stay within them. -/
theorem outBars_obeys (h : s.Replied 120) {c : DeviceContext} {i k : Nat} (hk : i + k ≤ maxBars) :
    Obeys s (outBars c i k) fun s' _ => s' = s := by
  unfold maxBars at hk
  induction k generalizing i with
  | zero => exact rfl
  | succ k ih =>
    refine h.outField (by omega) (h.outField (by omega) ?_)
    exact ih (by omega)

theorem outTiers_obeys (h : s.Replied 192) {c : DeviceContext} {sizes : List UInt64} {i : Nat}
    (hi : i + sizes.length ≤ 3) : Obeys s (outTiers c i sizes) fun s' _ => s' = s := by
  induction sizes generalizing i with
  | nil => exact rfl
  | cons size sizes ih =>
    rw [List.length_cons] at hi
    refine h.outField (by omega) (h.outField (by omega) ?_)
    exact ih (by omega)

theorem outProbe_obeys (h : s.Replied 192) {off : Nat} (hoff : off + 24 ≤ 192) (p : SysmemProbe) :
    Obeys s (outProbe off p) fun s' _ => s' = s := by
  refine h.outField (by omega) (h.outField (by omega) ?_)
  exact h.outField (by omega) (h.outField (by omega) (h.outField (by omega) rfl))

theorem outIatu_obeys (h : s.Replied 192) {c : DeviceContext} {regs : List Nat} {i : Nat}
    (hi : i + regs.length ≤ 9) : Obeys s (outIatu c i regs) fun s' _ => s' = s := by
  induction regs generalizing i with
  | nil => exact rfl
  | cons reg regs ih =>
    rw [List.length_cons] at hi
    refine obeys_step (o := .mmioRead _ _) trivial h.pending fun v => h.outField (by omega) ?_
    exact ih (by omega)

/-- The status reply is filled in within its 192 bytes. -/
theorem sysmemStatusLocked_obeys (h : s.Replied 192) : Obeys s sysmemStatusLocked fun s' _ => s' = s := by
  refine obeys_step (o := .load) trivial h.pending fun c => ?_
  refine h.outField (by omega) (h.outField (by omega) (h.outField (by omega) (h.outField (by omega) ?_)))
  refine (outTiers_obeys h (show 0 + sysmemTiers.length ≤ 3 by decide)).still fun _ => ?_
  refine h.outField (by omega) (h.outField (by omega) (h.outField (by omega) ?_))
  refine (outProbe_obeys h (show 112 + 24 ≤ 192 by omega) _).still fun _ => ?_
  refine (outProbe_obeys h (show 136 + 24 ≤ 192 by omega) _).still fun _ => ?_
  refine (outProbe_obeys h (show 160 + 24 ≤ 192 by omega) _).still fun _ => ?_
  refine obeys_ite ?_ rfl
  refine (outIatu_obeys h (show 0 + iatuRegOrder.length ≤ 9 by decide)).still fun _ => ?_
  exact h.outField (by omega) rfl

/-! ## The handlers -/

/-- What a handler answers: no more bytes than are written, and none with an error. -/
def BufferUse.Answers (s : BufferUse) (r : NtStatus × Nat) : Prop :=
  s.done = false ∧ r.2 ≤ s.filled ∧ (r.1.ok = false → r.2 = 0)

/-- A request refused answers with nothing. -/
theorem BufferUse.answers_none (hs : s.done = false) (status : NtStatus) : s.Answers (status, 0) :=
  ⟨hs, Nat.zero_le _, fun _ => rfl⟩

/-- The handlers with a reply: each checks both buffers, and answers as much as it has zeroed. -/
theorem getDeviceInfo_obeys : Obeys {} getDeviceInfo BufferUse.Answers := by
  refine obeys_checkOutput rfl (fun status => BufferUse.answers_none rfl status) fun _ => ?_
  refine obeys_outZero rfl (by decide) (obeys_step (o := .load) trivial rfl fun c => ?_)
  have h : BufferUse.Replied { output := 120, filled := 120 } 120 := ⟨rfl, rfl, Nat.le_refl _⟩
  refine h.outField (by omega) (h.outField (by omega) (h.outField (by omega) (h.outField (by omega) ?_)))
  refine h.outField (by omega) (h.outField (by omega) (h.outField (by omega) (h.outField (by omega) ?_)))
  refine h.outField (by omega) ?_
  refine (outBars_obeys h (i := 0) (by omega)).still fun _ => ?_
  exact ⟨rfl, Nat.le_refl _, fun hok => absurd hok (by decide)⟩

theorem teardownScope_requestless : TeardownScope Op.Requestless :=
  ⟨trivial, fun _ => trivial, fun _ => trivial, fun _ => trivial, fun _ => trivial, fun _ _ => trivial,
    fun _ => trivial, fun _ => trivial, fun _ => trivial⟩

theorem mappingScope_requestless (fileObject : Option FileObject) : MappingScope fileObject Op.Requestless where
  toTeardownScope := teardownScope_requestless
  silent _ := requestless_of_silent
  allocPool := trivial
  referenceProcess _ := trivial
  mapLockedPages _ _ _ := trivial
  mapView _ _ _ := trivial
  insertMapping _ _ := trivial

theorem arcScope_requestless : ArcScope (fun _ _ => True) Op.Requestless :=
  arcScope_of (fun _ => requestless_of_silent) (fun _ _ => trivial) fun _ _ => ⟨trivial, fun _ => trivial⟩

theorem ioctlMapBar_obeys (fileObject : Option FileObject) : Obeys {} (ioctlMapBar fileObject) BufferUse.Answers := by
  refine obeys_checkInput rfl (fun status => BufferUse.answers_none rfl status) fun _ => ?_
  refine obeys_checkOutput rfl (fun status => BufferUse.answers_none rfl status) fun _ => ?_
  refine obeys_step (o := .load) trivial rfl fun c => ?_
  refine obeys_inField rfl (by decide) fun _ => obeys_inField rfl (by decide) fun _ => ?_
  refine obeys_inField rfl (by decide) fun _ => obeys_inField rfl (by decide) fun _ => ?_
  refine obeys_ite (BufferUse.answers_none rfl _) ?_
  refine (obeys_of_only (createUserMapping_only (mappingScope_requestless fileObject) _ _ _ (.inl rfl)) rfl).still fun r => ?_
  cases r with
  | error => exact BufferUse.answers_none rfl _
  | ok va =>
    refine obeys_outZero rfl (by decide) (obeys_outField rfl (by decide) (by decide) ?_)
    refine obeys_inField rfl (by decide) fun _ => obeys_outField rfl (by decide) (by decide) ?_
    exact ⟨rfl, by decide, fun hok => absurd hok (by decide)⟩

theorem ioctlMapTlb_obeys (fileObject : Option FileObject) : Obeys {} (ioctlMapTlb fileObject) BufferUse.Answers := by
  cases fileObject with
  | none => exact BufferUse.answers_none rfl _
  | some fo =>
    refine obeys_checkInput rfl (fun status => BufferUse.answers_none rfl status) fun _ => ?_
    refine obeys_checkOutput rfl (fun status => BufferUse.answers_none rfl status) fun _ => ?_
    refine obeys_inField rfl (by decide) fun _ => obeys_ite (BufferUse.answers_none rfl _) ?_
    refine obeys_inField rfl (by decide) fun _ => obeys_step (o := .locked _) trivial rfl fun _ => ?_
    refine obeys_ite (BufferUse.answers_none rfl _) ?_
    refine obeys_step (o := .load) trivial rfl fun c => obeys_ite (BufferUse.answers_none rfl _) ?_
    have hcreate := mappingScope_requestless (some fo)
    refine (obeys_of_only (createUserMapping_only hcreate _ _ _ (.inr (Int.natCast_nonneg _))) rfl).still fun r => ?_
    cases r with
    | error => exact BufferUse.answers_none rfl _
    | ok va =>
      refine obeys_outZero rfl (by decide) (obeys_outField rfl (by decide) (by decide) ?_)
      exact ⟨rfl, by decide, fun hok => absurd hok (by decide)⟩

theorem ioctlAllocateTlb_obeys (fileObject : Option FileObject) :
    Obeys {} (ioctlAllocateTlb fileObject) BufferUse.Answers := by
  cases fileObject with
  | none => exact BufferUse.answers_none rfl _
  | some fo =>
    refine obeys_checkInput rfl (fun status => BufferUse.answers_none rfl status) fun _ => ?_
    refine obeys_checkOutput rfl (fun status => BufferUse.answers_none rfl status) fun _ => ?_
    refine obeys_inField rfl (by decide) fun _ => obeys_ite (BufferUse.answers_none rfl _) ?_
    refine obeys_step (o := .locked _) trivial rfl fun id => ?_
    cases id with
    | none => exact BufferUse.answers_none rfl _
    | some id =>
      refine obeys_outZero rfl (by decide) (obeys_outField rfl (by decide) (by decide) ?_)
      exact ⟨rfl, by decide, fun hok => absurd hok (by decide)⟩

/-- MAP_SYSMEM reads its Length once more, within the input it has checked. -/
theorem ioctlMapSysmem_obeys (fileObject : Option FileObject) :
    Obeys {} (ioctlMapSysmem fileObject) BufferUse.Answers := by
  cases fileObject with
  | none => exact BufferUse.answers_none rfl _
  | some fo =>
    have hscope := (mappingScope_requestless (some fo)).toMakingScope
    refine obeys_checkInput rfl (fun status => BufferUse.answers_none rfl status) fun _ => ?_
    refine obeys_checkOutput rfl (fun status => BufferUse.answers_none rfl status) fun _ => ?_
    refine obeys_inField rfl (by decide) fun _ => obeys_inField rfl (by decide) fun _ => ?_
    refine obeys_ite (BufferUse.answers_none rfl _) ?_
    refine obeys_step (o := .acquire .arc) trivial rfl fun _ => obeys_step (o := .load) trivial rfl fun c => ?_
    refine obeys_step (o := .release .arc) trivial rfl fun _ => obeys_ite (BufferUse.answers_none rfl _) ?_
    refine obeys_step (o := .load) trivial rfl fun c => obeys_ite (BufferUse.answers_none rfl _) ?_
    refine (obeys_of_only (mappingProcess_only hscope.viewing) rfl).still fun process => ?_
    refine obeys_step (o := .allocPool) trivial rfl fun addr => ?_
    cases addr with
    | none => exact BufferUse.answers_none rfl _
    | some addr =>
      refine obeys_step (o := .referenceProcess _) trivial rfl fun _ => obeys_step (o := .load) trivial rfl fun c => ?_
      refine (obeys_of_only (mapSysmemToUser_only hscope.viewing (fun _ _ _ => trivial) _ _ _ _) rfl).still fun r => ?_
      cases r with
      | error =>
        refine obeys_step (o := .dereferenceProcess _) trivial rfl fun _ => ?_
        exact obeys_step (o := .freePool _) trivial rfl fun _ => BufferUse.answers_none rfl _
      | ok r =>
        refine obeys_step (o := .locked _) trivial rfl fun _ => ?_
        refine obeys_outZero rfl (by decide) (obeys_outField rfl (by decide) (by decide) ?_)
        refine obeys_inField rfl (by decide) fun _ => obeys_outField rfl (by decide) (by decide) ?_
        exact ⟨rfl, by decide, fun hok => absurd hok (by decide)⟩

theorem ioctlSmcMsg_obeys : Obeys {} ioctlSmcMsg BufferUse.Answers := by
  have hscope : ExchangeScope Op.Requestless :=
    ⟨arcScope_requestless.toMailScope, trivial, trivial⟩
  refine obeys_checkInput rfl (fun status => BufferUse.answers_none rfl status) fun _ => ?_
  refine obeys_checkOutput rfl (fun status => BufferUse.answers_none rfl status) fun _ => ?_
  have hwords : Obeys { input := 32, output := 32 } (inWords 0 8) fun s' _ => s' = { input := 32, output := 32 } :=
    inWords_obeys rfl (by decide)
  refine hwords.still fun words => ?_
  refine (obeys_of_only (arcMsgSendSync_within hscope _) rfl).still fun r => ?_
  cases r with
  | error => exact BufferUse.answers_none rfl _
  | ok msg =>
    have hlen : 4 * msg.words.length = 32 := by simp [ArcMsg.words]
    refine obeys_outZero rfl (by decide) ((outWords_all rfl hlen (by decide) (by decide)).bind fun s _ hs => ?_)
    rw [hs]
    exact ⟨rfl, Nat.le_refl 32, fun hok => absurd hok (by decide)⟩

/-- ARC_STATUS writes its whole output dword by dword. -/
theorem ioctlArcStatus_obeys : Obeys {} ioctlArcStatus BufferUse.Answers := by
  refine obeys_checkOutput rfl (fun status => BufferUse.answers_none rfl status) fun _ => ?_
  refine obeys_step (o := .acquire .arc) trivial rfl fun _ => ?_
  refine (obeys_of_only (arcStatusLocked_within arcScope_requestless.toMailScope) rfl).still fun r => ?_
  obtain ⟨stage, status, report⟩ := r
  refine obeys_step (o := .release .arc) trivial rfl fun _ => ?_
  have hout : ∀ words : List UInt32, 4 * words.length = 40 →
      Obeys { output := 40 } (outWords 0 words) fun s' _ => s' = { output := 40, filled := 40 } :=
    fun words hlen => outWords_all rfl hlen (by decide) (by decide)
  refine (hout _ rfl).bind fun s _ hs => ?_
  rw [hs]
  exact ⟨rfl, Nat.le_refl 40, fun hok => absurd hok (by decide)⟩

theorem ioctlQuerySysmem_obeys : Obeys {} ioctlQuerySysmem BufferUse.Answers := by
  refine obeys_checkOutput rfl (fun status => BufferUse.answers_none rfl status) fun _ => ?_
  refine obeys_outZero rfl (by decide) (obeys_step (o := .acquire .arc) trivial rfl fun _ => ?_)
  refine obeys_step (o := .load) trivial rfl fun c => ?_
  have h : BufferUse.Replied { output := 48, filled := 48 } 48 := ⟨rfl, rfl, Nat.le_refl _⟩
  have hout : Obeys { output := 48, filled := 48 } (outSysmem c) fun s' _ => s' = { output := 48, filled := 48 } := by
    refine obeys_ite ?_ rfl
    refine h.outField (by omega) (h.outField (by omega) (h.outField (by omega) (h.outField (by omega) ?_)))
    exact h.outField (by omega) (h.outField (by omega) (h.outField (by omega) rfl))
  refine hout.still fun _ => ?_
  refine obeys_step (o := .release .arc) trivial rfl fun _ => ?_
  exact ⟨rfl, by decide, fun hok => absurd hok (by decide)⟩

theorem ioctlSysmemStatus_obeys : Obeys {} ioctlSysmemStatus BufferUse.Answers := by
  refine obeys_checkOutput rfl (fun status => BufferUse.answers_none rfl status) fun _ => ?_
  refine obeys_outZero rfl (by decide) (obeys_step (o := .acquire .arc) trivial rfl fun _ => ?_)
  have h : BufferUse.Replied { output := 192, filled := 192 } 192 := ⟨rfl, rfl, Nat.le_refl _⟩
  refine (sysmemStatusLocked_obeys h).still fun _ => ?_
  refine obeys_step (o := .release .arc) trivial rfl fun _ => ?_
  exact ⟨rfl, by decide, fun hok => absurd hok (by decide)⟩

/-- A handler without output only has to keep to the input. -/
theorem noOutput_obeys {p : Drv NtStatus} (hp : Obeys {} p fun s _ => s.done = false) :
    Obeys {} (noOutput p) BufferUse.Answers :=
  hp.bind fun _ status hs => BufferUse.answers_none hs status

/-- The handlers without a reply leave completing to the dispatcher. -/
theorem ioctlUnmapBar_obeys (fileObject : Option FileObject) :
    Obeys {} (ioctlUnmapBar fileObject) fun s _ => s.done = false := by
  cases fileObject with
  | none => exact rfl
  | some fo =>
    refine obeys_checkInput rfl (fun _ => rfl) fun _ => obeys_inField rfl (by decide) fun _ => ?_
    refine obeys_step (o := .locked _) trivial rfl fun found => ?_
    cases found with
    | none => exact rfl
    | some m => exact (obeys_of_only (destroyMapping_only teardownScope_requestless m) rfl).still fun _ => rfl

theorem ioctlFreeTlb_obeys (fileObject : Option FileObject) :
    Obeys {} (ioctlFreeTlb fileObject) fun s _ => s.done = false := by
  cases fileObject with
  | none => exact rfl
  | some fo =>
    refine obeys_checkInput rfl (fun _ => rfl) fun _ => obeys_inField rfl (by decide) fun _ => obeys_ite rfl ?_
    refine obeys_inField rfl (by decide) fun _ => ?_
    exact obeys_step (o := .locked _) trivial rfl fun _ => rfl

/-- The configuration is 21 bytes of the input. -/
theorem inTlbConfig_obeys {off : Nat} (hs : s.done = false) (hfits : off + 21 ≤ s.input) {f : NocTlbConfig → Drv α}
    (hf : ∀ cfg, Obeys s (f cfg) Q) : Obeys s (inTlbConfig off >>= f) Q := by
  refine obeys_inField hs (by omega) fun _ => obeys_inField hs (by omega) fun _ => ?_
  refine obeys_inField hs (by omega) fun _ => obeys_inField hs (by omega) fun _ => ?_
  refine obeys_inField hs (by omega) fun _ => obeys_inField hs (by omega) fun _ => ?_
  refine obeys_inField hs (by omega) fun _ => obeys_inField hs (by omega) fun _ => ?_
  exact obeys_inField hs (by omega) fun _ => obeys_inField hs (by omega) fun _ => hf _

theorem ioctlConfigureTlb_obeys (fileObject : Option FileObject) :
    Obeys {} (ioctlConfigureTlb fileObject) fun s _ => s.done = false := by
  cases fileObject with
  | none => exact rfl
  | some fo =>
    refine obeys_checkInput rfl (fun _ => rfl) fun _ => ?_
    refine obeys_inField rfl (by decide) fun _ => obeys_inField rfl (by decide) fun _ => ?_
    refine obeys_inField rfl (by decide) fun _ => obeys_ite rfl ?_
    refine inTlbConfig_obeys rfl (by decide) fun cfg => obeys_ite rfl (obeys_ite rfl ?_)
    refine obeys_inField rfl (by decide) fun _ => obeys_step (o := .acquire .state) trivial rfl fun _ => ?_
    refine (obeys_of_only (configureLocked_within trivial (fun _ _ _ _ _ => trivial) _ _ _) rfl).still fun _ => ?_
    exact obeys_step (o := .release .state) trivial rfl fun _ => rfl

theorem ioctlResetDevice_obeys (fileObject : Option FileObject) :
    Obeys {} (ioctlResetDevice fileObject) fun s _ => s.done = false := by
  refine obeys_checkInput rfl (fun _ => rfl) fun _ => obeys_inField rfl (by decide) fun _ => ?_
  refine obeys_inField rfl (by decide) fun _ => obeys_ite rfl (obeys_step (o := .load) trivial rfl fun c => ?_)
  refine obeys_ite rfl (obeys_step (o := .locked .anyMapping) trivial rfl fun _ => obeys_ite rfl ?_)
  refine obeys_step (o := .acquire .arc) trivial rfl fun _ => ?_
  have harm : (armReset fileObject).Only Op.Requestless :=
    armReset_within (fun _ => requestless_of_silent) (fun _ _ => trivial) (fun _ _ => trivial) trivial
      (fun _ _ _ _ => trivial) fileObject
  exact (obeys_of_only harm rfl).still fun _ => obeys_step (o := .release .arc) trivial rfl fun _ => rfl

theorem ioctlPostReset_obeys : Obeys {} ioctlPostReset fun s _ => s.done = false := by
  refine obeys_checkInput rfl (fun _ => rfl) fun _ => obeys_inField rfl (by decide) fun _ => ?_
  refine obeys_inField rfl (by decide) fun _ => obeys_ite rfl (obeys_step (o := .load) trivial rfl fun c => ?_)
  refine obeys_ite rfl (obeys_step (o := .acquire .arc) trivial rfl fun _ => ?_)
  have hrecover : recoverReset.Only Op.Requestless :=
    recoverReset_within ⟨fun _ => requestless_of_silent, fun _ _ _ => trivial⟩ (fun _ => trivial) trivial
      fun _ _ => ⟨trivial, fun _ => trivial⟩
  refine (obeys_of_only hrecover rfl).still fun r => ?_
  obtain ⟨status, recovered⟩ := r
  refine obeys_step (o := .release .arc) trivial rfl fun _ => obeys_ite rfl ?_
  refine (obeys_of_only ((powerUpRetry_only _).mono fun _ => requestless_of_powerFoot) rfl).still fun _ => ?_
  exact (obeys_of_only (sysmemArm_only.mono fun _ => requestless_of_powerFoot) rfl).still fun _ => rfl

/-- Every handler answers. -/
theorem ioctlHandler_obeys (fileObject : Option FileObject) (code : Ioctl) :
    Obeys {} (ioctlHandler fileObject code) BufferUse.Answers := by
  cases code with
  | getDeviceInfo => exact getDeviceInfo_obeys
  | mapBar => exact ioctlMapBar_obeys _
  | unmapBar => exact noOutput_obeys (ioctlUnmapBar_obeys _)
  | allocateTlb => exact ioctlAllocateTlb_obeys _
  | freeTlb => exact noOutput_obeys (ioctlFreeTlb_obeys _)
  | configureTlb => exact noOutput_obeys (ioctlConfigureTlb_obeys _)
  | mapTlb => exact ioctlMapTlb_obeys _
  | smcMsg => exact ioctlSmcMsg_obeys
  | resetDevice => exact noOutput_obeys (ioctlResetDevice_obeys _)
  | arcStatus => exact ioctlArcStatus_obeys
  | postReset => exact noOutput_obeys ioctlPostReset_obeys
  | querySysmem => exact ioctlQuerySysmem_obeys
  | mapSysmem => exact ioctlMapSysmem_obeys _
  | sysmemStatus => exact ioctlSysmemStatus_obeys
  | other => exact BufferUse.answers_none rfl _

/-! ## The calls -/

/-- Completing is the last thing done. -/
theorem complete_obeys {status : NtStatus} {n : Nat} (h : s.Answers (status, n)) :
    Obeys s (op (.complete status n)) fun s' _ => s'.done = true :=
  ⟨h, fun _ => rfl⟩

/-- The dispatcher completes what the handler answers, or refuses it itself. -/
theorem evtIoDeviceControl_obeys (fileObject : Option FileObject) (code : Ioctl) :
    Obeys {} (evtIoDeviceControl fileObject code) fun s _ => s.done = true := by
  refine (obeys_of_only (isStale_only trivial (fun _ => trivial) _) rfl).still fun _ => ?_
  refine obeys_ite (complete_obeys (BufferUse.answers_none rfl _)) ?_
  refine obeys_step (o := .load) trivial rfl fun c => obeys_ite (complete_obeys (BufferUse.answers_none rfl _)) ?_
  exact (ioctlHandler_obeys fileObject code).bind fun s r hr => complete_obeys hr

theorem evtDeviceFileCreate_obeys (fo : FileObject) :
    Obeys {} (evtDeviceFileCreate fo) fun s _ => s.done = true := by
  refine obeys_step (o := .load) trivial rfl fun c => ?_
  exact obeys_step (o := .setFileGen _ _) trivial rfl fun _ => complete_obeys (BufferUse.answers_none rfl _)

/-- The threads that have a request to complete. -/
def Tid.HasRequest : Tid → Prop
  | .ioctl | .create _ => True
  | _ => False

/-- A call with a request completes it. -/
theorem call_obeys {w : World} {p : Drv Unit} {t : Tid} (h : w.Call p t) (ht : t.HasRequest) :
    Obeys {} p fun s _ => s.done = true := by
  cases t with
  | ioctl =>
    obtain ⟨code, rfl⟩ := h
    exact evtIoDeviceControl_obeys _ code
  | create fo =>
    obtain rfl : p = evtDeviceFileCreate fo := h
    exact evtDeviceFileCreate_obeys fo
  | _ => exact ht.elim

/-- A call without one never touches a request. -/
theorem call_requestless {w : World} {p : Drv Unit} {t : Tid} (h : w.Call p t) (ht : ¬ t.HasRequest) :
    p.Only Op.Requestless := by
  cases t with
  | ioctl => exact absurd trivial ht
  | create fo => exact absurd trivial ht
  | power =>
    obtain ⟨cb, rfl⟩ := h
    exact (power_only cb).mono fun _ => requestless_of_powerFoot
  | cleanup fo =>
    obtain rfl : p = evtFileCleanup fo := h
    exact ⟨trivial, fun ms _ => destroyAll_only teardownScope_requestless ms⟩
  | hardware =>
    have hscope : HardwareScope Op.Requestless :=
      ⟨fun _ => requestless_of_silent, fun _ _ _ _ _ => trivial, trivial, trivial, fun _ _ _ => trivial,
        fun _ => trivial⟩
    rcases h with ⟨resources, rfl⟩ | rfl
    · have hprepare : (evtDevicePrepareHardware resources).Only Op.Requestless :=
        evtDevicePrepareHardware_within hscope (fun _ _ _ => trivial) (fun _ _ => trivial) (fun _ _ => trivial) _
      exact hprepare.bind fun _ => trivial
    · have hrevoke : revokeAllMappings.Only Op.Requestless :=
        ⟨trivial, fun ms _ => destroyAll_only teardownScope_requestless ms⟩
      refine hrevoke.bind fun _ => releaseResources_only hscope (fun _ _ _ _ => trivial) (fun _ => trivial)
        (fun _ => trivial) (fun _ _ => trivial) fun _ _ => trivial

end Programs

/-! ## Runs -/

/-- The operation writes the byte of the output at `i`. -/
def Op.fills (i : Nat) : Op → Prop
  | .outZero len => i < len
  | .outField off len _ => off ≤ i ∧ i < off + len
  | _ => False

/-- Every byte that counts as written was written. -/
theorem exists_fills {evs : List Event} {i : Nat} (hi : i < (evs.foldr BufferUse.next {}).filled) :
    ∃ ev ∈ evs, ev.1.fills i := by
  induction evs with
  | nil => exact absurd hi (Nat.not_lt_zero i)
  | cons ev evs ih =>
    by_cases hbefore : i < (evs.foldr BufferUse.next {}).filled
    · obtain ⟨ev', hev', hfills⟩ := ih hbefore
      exact ⟨ev', List.mem_cons_of_mem _ hev', hfills⟩
    · refine ⟨ev, List.mem_cons_self, ?_⟩
      rw [List.foldr_cons] at hi
      generalize evs.foldr BufferUse.next {} = s at hi hbefore
      obtain ⟨o, x⟩ := ev
      unfold BufferUse.next at hi
      cases o with
      | outZero len =>
        have hmax : i < max s.filled len := hi
        show i < len
        omega
      | outField off len v =>
        simp only at hi
        split at hi
        · have hmax : i < max s.filled (off + len) := hi
          show off ≤ i ∧ i < off + len
          omega
        · exact absurd hi hbefore
      | inputBuffer len =>
        simp only at hi
        split at hi <;> exact absurd hi hbefore
      | outputBuffer len =>
        simp only at hi
        split at hi <;> exact absurd hi hbefore
      | _ => exact absurd hi hbefore

/-- What was found to be there is there. -/
def BufferUse.Checked (s : BufferUse) (r : Request) : Prop := s.input ≤ r.inLen ∧ s.output ≤ r.outLen

/-- What was checked is so of the request. -/
theorem exec_checked {t : Tid} {o : Op} {e : Choice} {w w' : World} {x : o.Ans} {s : BufferUse}
    (he : w.exec t o e = some (x, w')) (hs : s.Checked w.req) : (s.next ⟨o, x⟩).Checked w.req := by
  obtain ⟨w₁, hstep, -⟩ := World.exec_step he
  have hsmall : NtStatus.ok .bufferTooSmall = false := by decide
  have hsuccess : NtStatus.ok .success = true := by decide
  obtain ⟨hin, hout⟩ := hs
  unfold BufferUse.next
  cases o with
  | inputBuffer len =>
    obtain ⟨rfl, -⟩ := Prod.mk.inj (Option.some.inj hstep)
    by_cases hlt : w.req.inLen < len
    · simp only [if_pos hlt, hsmall, Bool.false_eq_true, if_false]
      exact ⟨hin, hout⟩
    · simp only [if_neg hlt, hsuccess, if_true]
      exact ⟨Nat.max_le.mpr ⟨hin, Nat.le_of_not_lt hlt⟩, hout⟩
  | outputBuffer len =>
    obtain ⟨rfl, -⟩ := Prod.mk.inj (Option.some.inj hstep)
    by_cases hlt : w.req.outLen < len
    · simp only [if_pos hlt, hsmall, Bool.false_eq_true, if_false]
      exact ⟨hin, hout⟩
    · simp only [if_neg hlt, hsuccess, if_true]
      exact ⟨hin, Nat.max_le.mpr ⟨hout, Nat.le_of_not_lt hlt⟩⟩
  | outField off len v =>
    simp only
    split <;> exact ⟨hin, hout⟩
  | _ => exact ⟨hin, hout⟩

/-- In every run, what the request at hand has found to be there of its buffers is there. -/
theorem reach_checked {c : DriverConfig} (h : Reach driver anyStep c) :
    ((c.world.hist .ioctl).foldr BufferUse.next {}).Checked c.world.req := by
  obtain ⟨w, hw, hr⟩ := h
  induction hr with
  | refl =>
    obtain ⟨buffer, rfl⟩ := hw
    exact ⟨Nat.zero_le _, Nat.zero_le _⟩
  | @tail c c' _ hs ih =>
    cases hs with
    | @begins t p w' _ hb =>
      by_cases ht : t = .ioctl
      · subst ht
        rw [Config.set_world, begins_hist_self hb]
        exact ⟨Nat.zero_le _, Nat.zero_le _⟩
      · rw [Config.set_world, begins_hist hb (Ne.symm ht), begins_req hb ht]
        exact ih
    | @exec t o k e x w' _ _ he =>
      have hf := World.exec_frame he
      have hreq : ∀ s : BufferUse, s.Checked c.world.req → s.Checked w'.req := by
        intro s hs
        rw [hf.request]
        exact hs
      rw [Config.set_world, hf.hist]
      by_cases ht : t = .ioctl
      · subst ht
        rw [Function.update_self]
        exact hreq _ (exec_checked he ih)
      · rw [Function.update_of_ne (Ne.symm ht)]
        exact hreq _ ih
    | @ends t w' _ he =>
      obtain rfl : w' = c.world.leave t := he
      cases t <;> exact ih
    | env he => cases he <;> exact ih

/-- The operation stays within the request's buffers; a completion hands back bytes of the output that
the request has written, and none with an error. -/
def Op.InBuffers (w : World) : Op → Prop
  | .inField off len => off + len ≤ w.req.inLen
  | .outZero len => len ≤ w.req.outLen
  | .outField off len _ => off + len ≤ w.req.outLen
  | .complete status n => (n ≤ w.req.outLen ∧ ∀ i < n, ∃ ev ∈ w.hist .ioctl, ev.1.fills i) ∧
      (status.ok = false → n = 0)
  | _ => True

/-- No more is written than was checked. -/
theorem next_filled_le {s : BufferUse} {o : Op} {x : o.Ans} (hallows : s.allows o) (hs : s.filled ≤ s.output) :
    (s.next ⟨o, x⟩).filled ≤ (s.next ⟨o, x⟩).output := by
  unfold BufferUse.next
  cases o with
  | outZero len =>
    have hlen : len ≤ s.output := hallows.2
    exact Nat.max_le.mpr ⟨hs, hlen⟩
  | outField off len v =>
    have hlen : off + len ≤ s.output := hallows.2
    simp only
    split
    · exact Nat.max_le.mpr ⟨hs, hlen⟩
    · exact hs
  | inputBuffer len =>
    simp only
    split <;> exact hs
  | outputBuffer len =>
    simp only
    split
    · exact Nat.le_trans hs (Nat.le_max_left _ _)
    · exact hs
  | _ => exact hs

/-- In every run, whatever the lengths of its buffers, a request stays within them. -/
theorem requests_stay_in_buffers {c : DriverConfig} (h : Reach driver anyStep c) {o : Op} {k : o.Ans → Drv Unit}
    (hp : c.pool .ioctl = some (.vis o k)) : o.InBuffers c.world := by
  obtain ⟨p, hcall, hleads⟩ := reach_inCall h hp
  have hobeys := call_obeys hcall trivial
  obtain ⟨hin, hout⟩ := reach_checked h
  have hfilled : ∀ i < ((c.world.hist .ioctl).foldr BufferUse.next {}).filled,
      ∃ ev ∈ c.world.hist .ioctl, ev.1.fills i := fun i => exists_fills
  have hle : ((c.world.hist .ioctl).foldr BufferUse.next {}).filled ≤
      ((c.world.hist .ioctl).foldr BufferUse.next {}).output :=
    hleads.follows_keeps hobeys (Nat.le_refl 0) fun s o x => next_filled_le
  have hfits := (hleads.follows hobeys).1.2
  cases o with
  | inField off len => exact Nat.le_trans hfits hin
  | outZero len => exact Nat.le_trans hfits hout
  | outField off len v => exact Nat.le_trans hfits hout
  | complete status n =>
    obtain ⟨hn, herror⟩ := hfits
    exact ⟨⟨Nat.le_trans hn (Nat.le_trans hle hout), fun i hi => hfilled i (Nat.lt_of_lt_of_le hi hn)⟩, herror⟩
  | _ => trivial

/-- GET_DEVICE_INFO by handle 2 with room for 128 bytes, up to its completion. -/
def reportsDevice : List Move :=
  cardArrives 0 ++ opens 2 2 ++ [
    .ioctl { fileObject := some 2, requestor := some 2, outLen := 128 } .getDeviceInfo 2,
    .ops .ioctl (plainOps 19)]

/-- The request is about to hand back 120 bytes of the 128 there are. -/
def handsBack120 (c : DriverConfig) : Bool :=
  match c.pool .ioctl with
  | some (.vis (.complete .success 120) _) => c.world.req.outLen == 128
  | _ => false

/-- GET_DEVICE_INFO hands back its 120 bytes of a longer buffer. -/
theorem requests_stay_in_buffers_reply :
    ∃ c k, Reach driver anyStep c ∧ c.pool .ioctl = some (.vis (.complete .success 120) k) ∧
      c.world.req.outLen = 128 ∧ Op.InBuffers c.world (.complete .success 120) := by
  have hplay : (DriverConfig.play (fun _ _ _ => true) reportsDevice idle).any handsBack120 = true := by
    decide +kernel
  obtain ⟨c, hreach, hend⟩ := DriverConfig.exists_reach (DriverConfig.implies_anyStep _) hplay
  unfold handsBack120 at hend
  split at hend
  · rename_i k hpool
    exact ⟨c, k, hreach, hpool, beq_iff_eq.mp hend, requests_stay_in_buffers hreach hpool⟩
  · cases hend

end TtWind
