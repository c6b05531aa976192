import TtWind.RingBuffer
import TtWind.Laws.RingBounds

/-!
# The mailbox, with the firmware at the other end

An exchange with the ARC firmware works on two rings in the CSM: the driver produces requests and
consumes responses, the firmware the other way round. The code of an exchange is a program over its
CSM accesses, the doorbell and the clock (`Mail`), and `exchange_eq` says that `arc.c` is this
program with the driver's accessors. `mailbox` is the system of one queue: the driver's calls, one
at a time as ArcLock has it, against a firmware that moves between any two accesses. The firmware
takes requests in order, writes the words of a response one at a time into its own free slot, and
puts out at most one response for each request it took.

`Mailbox` keeps the memory, and beside it, as bookkeeping of this model, the messages put into each
ring and taken out of it.
-/

set_option autoImplicit false

namespace TtWind

open TtWind.Effect TtWind.Effect.Prog

/-! ## The code of an exchange -/

/-- What a call hands its caller. -/
inductive MailAnswer where
  | pushed (msg : ArcMsg) (status : NtStatus)
  | popped (r : Except NtStatus ArcMsg)
  | exchanged (msg : ArcMsg) (r : Except NtStatus ArcMsg)

/-- The operations of an exchange; `returns` ends a call and touches nothing. -/
inductive MailOp where
  | csm (o : CsmOp)
  | doorbell
  | deadline (ms : Nat)
  | stall (us : Nat)
  | returns (a : MailAnswer)

@[reducible] def MailOp.Ans : MailOp → Type
  | .csm o => o.Ans
  | .deadline _ => Nat
  | _ => Unit

abbrev MailSig : Sig := ⟨MailOp, MailOp.Ans⟩

/-- The driver's accessors. -/
def mailAccess : (o : MailOp) → Drv o.Ans
  | .csm o => csmAccess o
  | .doorbell => arcDoorbell
  | .deadline ms => op (.deadline ms)
  | .stall us => op (.stall us)
  | .returns _ => return ()

namespace Mail

/-- Code that only accesses the CSM. -/
def csm {α : Type} (p : Prog CsmSig α) : Prog MailSig α := p.handle fun o => perform (S := MailSig) (.csm o)

def tryPush (msg : ArcMsg) (base n : UInt32) : Prog MailSig NtStatus := csm (Csm.tryPush msg base n)

def tryPop (base n : UInt32) : Prog MailSig (Except NtStatus ArcMsg) := csm (Csm.tryPop base n)

def drainResponses (base n : UInt32) : Nat → Prog MailSig Unit
  | 0 => return ()
  | i + 1 => do
    match ← tryPop base n with
    | .error _ => return ()
    | .ok _ => drainResponses base n i

def pollRoundResponse (base n : UInt32) (again : Prog MailSig (Except NtStatus ArcMsg)) :
    Prog MailSig (Except NtStatus ArcMsg) := do
  match ← tryPop base n with
  | .error .deviceBusy => again
  | r => return r

def pollResponse (base n : UInt32) : Nat → Prog MailSig (Except NtStatus ArcMsg)
  | 0 => pollRoundResponse base n (return .error .ioTimeout)
  | polls + 1 => pollRoundResponse base n do
    perform (S := MailSig) (.stall 200)
    pollResponse base n polls

def exchange (msg : ArcMsg) (base n : UInt32) : Prog MailSig (Except NtStatus ArcMsg) := do
  drainResponses base n n.toNat
  let status ← tryPush msg base n
  if !status.ok then return .error status
  perform (S := MailSig) .doorbell
  let polls ← perform (S := MailSig) (.deadline arcMsgTimeoutMs)
  pollResponse base n polls

end Mail

/-! ## The driver's code is this, handled -/

theorem handle_csm {α : Type} (p : Prog CsmSig α) : (Mail.csm p).handle mailAccess = p.handle csmAccess := by
  rw [Mail.csm, handle_handle]
  apply congrArg (fun h => p.handle h)
  funext o
  exact handle_perform (S := MailSig) mailAccess (.csm o)

theorem mail_tryPush_eq (msg : ArcMsg) (base n : UInt32) :
    (Mail.tryPush msg base n).handle mailAccess = arcTryPush msg base n :=
  (handle_csm _).trans (arcTryPush_eq msg base n)

theorem mail_tryPop_eq (base n : UInt32) : (Mail.tryPop base n).handle mailAccess = arcTryPop base n :=
  (handle_csm _).trans (arcTryPop_eq base n)

theorem drainResponses_eq (base n : UInt32) (i : Nat) :
    (Mail.drainResponses base n i).handle mailAccess = drainResponses base n i := by
  induction i with
  | zero => rfl
  | succ i ih =>
    unfold Mail.drainResponses drainResponses
    rw [handle_bind, mail_tryPop_eq]
    apply congrArg (arcTryPop base n >>= ·)
    funext r
    cases r with
    | error status => rfl
    | ok msg => exact ih

theorem pollRoundResponse_eq (base n : UInt32) (again : Prog MailSig (Except NtStatus ArcMsg)) :
    (Mail.pollRoundResponse base n again).handle mailAccess =
      pollRoundResponse base n (again.handle mailAccess) := by
  unfold Mail.pollRoundResponse pollRoundResponse
  rw [handle_bind, mail_tryPop_eq]
  apply congrArg (arcTryPop base n >>= ·)
  funext r
  cases r with
  | ok msg => rfl
  | error status => cases status <;> rfl

theorem pollResponse_eq (base n : UInt32) (polls : Nat) :
    (Mail.pollResponse base n polls).handle mailAccess = pollResponse base n polls := by
  induction polls with
  | zero => exact pollRoundResponse_eq base n _
  | succ polls ih =>
    unfold Mail.pollResponse pollResponse
    rw [pollRoundResponse_eq, handle_bind, ih]
    rfl

/-- The exchange of `TtWindArcMsgSendSync` is this one, with the driver's accessors. -/
theorem exchange_eq (msg : ArcMsg) (base n : UInt32) :
    (Mail.exchange msg base n).handle mailAccess = arcExchange msg base n := by
  unfold Mail.exchange arcExchange
  rw [handle_bind, drainResponses_eq]
  apply congrArg (drainResponses base n n.toNat >>= ·)
  funext _
  rw [handle_bind, mail_tryPush_eq]
  apply congrArg (arcTryPush msg base n >>= ·)
  funext status
  rw [handle_ite (S := MailSig)]
  apply if_congr Iff.rfl rfl
  rw [handle_bind, handle_perform]
  apply congrArg (arcDoorbell >>= ·)
  funext _
  rw [handle_bind, handle_perform]
  apply congrArg (op (.deadline arcMsgTimeoutMs) >>= ·)
  funext polls
  exact pollResponse_eq base n polls

/-! ## The rings in the CSM -/

/-- The message whose eight words start at an address. -/
def messageAt (mem : Nat → UInt32) (a : Nat) : ArcMsg := ⟨mem a, fun i => mem (a + 4 * (i + 1))⟩

theorem messageAt_congr {mem mem' : Nat → UInt32} {a : Nat} (h : ∀ j < 8, mem' (a + 4 * j) = mem (a + 4 * j)) :
    messageAt mem' a = messageAt mem a := by
  have hhead : mem' a = mem a := h 0 (by omega)
  have hpayload : (fun i : Fin 7 => mem' (a + 4 * (i + 1))) = fun i : Fin 7 => mem (a + 4 * (i + 1)) :=
    funext fun i => h (i + 1) (by omega)
  rw [messageAt, messageAt, hhead, hpayload]

/-- A ring of messages whose slots lie one after the other behind its counters. -/
def messageRing (size writer reader slots : Nat) (hwr : writer ≠ reader) (hw : writer < slots)
    (hr : reader < slots) : RingBuffer UInt32 ArcMsg where
  size := size
  writer := writer
  reader := reader
  value := UInt32.toNat
  cells i := {x | ∃ j < 8, x = slots + 32 * i + 4 * j}
  entry mem i := messageAt mem (slots + 32 * i)
  entry_congr h := messageAt_congr fun j hj => h _ ⟨j, hj, rfl⟩
  cells_ne := by
    rintro i j x - - hne ⟨k, hk, rfl⟩ ⟨k', hk', he⟩
    omega
  writer_ne_reader := hwr
  writer_not_mem := by
    rintro i - ⟨k, hk, he⟩
    omega
  reader_not_mem := by
    rintro i - ⟨k, hk, he⟩
    omega

/-- The request ring of a queue, the driver being the producer. -/
def requestRing (base n : Nat) : RingBuffer UInt32 ArcMsg :=
  messageRing n base (base + 16) (base + 32) (by omega) (by omega) (by omega)

/-- The response ring, the driver being the consumer. -/
def responseRing (base n : Nat) : RingBuffer UInt32 ArcMsg :=
  messageRing n (base + 20) (base + 4) (base + 32 + 32 * n) (by omega) (by omega) (by omega)

/-! ## The system -/

/-- How things stood when a call began. -/
structure MailMark where
  published : List ArcMsg := []
  collected : List ArcMsg := []
  answered : List ArcMsg := []

/-- The CSM; the requests published by the driver and taken by the firmware, the responses put out by
the firmware and collected by the driver; whether the request ring was full and the response ring had
something when the driver last looked; how many responses were due or uncollected when the driver last
published; and the beginning of the current call. -/
structure Mailbox where
  mem : Nat → UInt32 := fun _ => 0
  published : List ArcMsg := []
  taken : List ArcMsg := []
  answered : List ArcMsg := []
  collected : List ArcMsg := []
  full : Bool := false
  ready : Bool := false
  lag : Nat := 0
  began : MailMark := {}

namespace Mailbox

variable (base n : Nat)

/-- The driver looks at a word: at the firmware's counters it sees how full the rings are. -/
def look (w : Mailbox) (a : Nat) : Mailbox :=
  if a = (requestRing base n).reader then { w with full := w.taken.length + n ≤ w.published.length }
  else if a = (responseRing base n).writer then { w with ready := w.collected.length < w.answered.length }
  else w

/-- The driver stores a word: with its own counters it publishes a request and collects a response. -/
def store (w : Mailbox) (a : Nat) (v : UInt32) : Mailbox :=
  { w with
    mem := Function.update w.mem a v
    published :=
      if a = (requestRing base n).writer then
        w.published ++ [(requestRing base n).entry w.mem ((requestRing base n).next w.mem)]
      else w.published
    collected :=
      if a = (responseRing base n).reader then
        w.collected ++ [(responseRing base n).entry w.mem ((responseRing base n).oldest w.mem)]
      else w.collected
    lag := if a = (requestRing base n).writer then w.published.length - w.collected.length else w.lag }

/-- One operation of the driver; `e` is what the clock says. -/
def exec (_ : Unit) : (o : MailOp) → Nat → Mailbox → Option (o.Ans × Mailbox)
  | .csm (.read a), _, w =>
    if csmRejects a then some (.error .invalidAddress, w)
    else some (.ok (w.mem a.toNat), w.look base n a.toNat)
  | .csm (.write a v), _, w =>
    if csmRejects a then some (.invalidAddress, w) else some (.success, w.store base n a.toNat v)
  | .doorbell, _, w => some ((), w)
  | .deadline _, e, w => some (e, w)
  | .stall _, _, w => some ((), w)
  | .returns _, _, w => some ((), w)

/-- A step of the firmware. -/
inductive FirmwareMove where
  /-- Take the oldest request. -/
  | take
  /-- Write a word of the next response. -/
  | compose (j : Fin 8) (v : UInt32)
  /-- Put the response out. -/
  | answer
  /-- Write some word that is not the queue's. -/
  | elsewhere (a : Nat) (v : UInt32)
  deriving DecidableEq, Repr

def firmware : FirmwareMove → Mailbox → Option Mailbox
  | .take, w =>
    let q := requestRing base n
    if q.outstanding w.mem ≠ 0 then
      some { w with
        mem := Function.update w.mem q.reader (UInt32.ofNat (RingQueue.advance n (q.consumed w.mem)))
        taken := w.taken ++ [q.entry w.mem (q.oldest w.mem)] }
    else none
  | .compose j v, w =>
    let q := responseRing base n
    if q.outstanding w.mem < n then
      some { w with mem := Function.update w.mem (base + 32 + 32 * n + 32 * q.next w.mem + 4 * j) v }
    else none
  | .answer, w =>
    let q := responseRing base n
    if q.outstanding w.mem < n ∧ w.answered.length < w.taken.length then
      some { w with
        mem := Function.update w.mem q.writer (UInt32.ofNat (RingQueue.advance n (q.written w.mem)))
        answered := w.answered ++ [q.entry w.mem (q.next w.mem)] }
    else none
  | .elsewhere a v, w =>
    if a < base ∨ base + 32 + 64 * n ≤ a then some { w with mem := Function.update w.mem a v } else none

/-- The rings carry what was put in and not yet taken out, and no response is put out for a request
not taken. -/
structure Sound (w : Mailbox) : Prop where
  requests : (requestRing base n).Carries w.mem w.taken w.published
  responses : (responseRing base n).Carries w.mem w.collected w.answered
  answers : w.answered.length ≤ w.taken.length

end Mailbox

/-- A call of the driver. -/
inductive MailCall where
  | push (msg : ArcMsg)
  | pop
  | exchange (msg : ArcMsg)

def MailCall.code (base n : UInt32) : MailCall → Prog MailSig Unit
  | .push msg => do
    let status ← Mail.tryPush msg base n
    perform (S := MailSig) (.returns (.pushed msg status))
  | .pop => do
    let r ← Mail.tryPop base n
    perform (S := MailSig) (.returns (.popped r))
  | .exchange msg => do
    let r ← Mail.exchange msg base n
    perform (S := MailSig) (.returns (.exchanged msg r))

def mailMachine (base n : UInt32) : Machine MailSig Unit Nat Mailbox where
  exec := Mailbox.exec base.toNat n.toNat

/-- The driver's calls against the firmware, from any well-formed rings with `start`. -/
def mailbox (start : Mailbox → Prop) (base n : UInt32) : System MailSig Unit Nat Mailbox where
  toMachine := mailMachine base n
  initial w := w.Sound base.toNat n.toNat ∧ start w
  begins _ _ p w w' := ∃ call : MailCall, p = call.code base n ∧
    w' = { w with began := ⟨w.published, w.collected, w.answered⟩ }
  ends _ w w' := w' = w
  env w w' := ∃ m, w.firmware base.toNat n.toNat m = some w'

/-! ## Schedules of the mailbox -/

/-- One move of a schedule: a call begins, the current call performs operations but does not return, or
the firmware moves. -/
inductive MailMove where
  | begins (call : MailCall)
  | ops (choices : List Nat)
  | firmware (m : Mailbox.FirmwareMove)

def MailOp.isReturn : MailOp → Bool
  | .returns _ => true
  | _ => false

/-- A configuration of the mailbox. -/
abbrev MailConfig := Config MailSig Unit Mailbox

namespace MailConfig

variable (base n : UInt32)

/-- Perform the call's next operations, one for each choice. -/
def ops : List Nat → MailConfig → Option MailConfig
  | [], c => some c
  | e :: es, c =>
    match c.pool () with
    | some (.vis o k) =>
      if o.isReturn then none
      else
        match (mailMachine base n).exec () o e c.world with
        | some (x, w) => ops es (c.set w () (some (k x)))
        | none => none
    | _ => none

def move (c : MailConfig) : MailMove → Option MailConfig
  | .begins call =>
    if (c.pool ()).isNone then
      some (c.set { c.world with began := ⟨c.world.published, c.world.collected, c.world.answered⟩ } ()
        (some (call.code base n)))
    else none
  | .ops choices => ops base n choices c
  | .firmware m => (c.world.firmware base.toNat n.toNat m).map fun w => ⟨w, c.pool⟩

/-- A schedule, move by move. -/
def play : List MailMove → MailConfig → Option MailConfig
  | [], c => some c
  | m :: ms, c => (c.move base n m).bind (play ms)

/-- What the current call is about to return. -/
def returning (c : MailConfig) : Option MailAnswer :=
  match c.pool () with
  | some (.vis (.returns a) _) => some a
  | _ => none

variable {base n} {allow : Unit → MailOp → Mailbox → Prop} {start : Mailbox → Prop} {c c' : MailConfig}

theorem run_of_ops (h : ∀ o w, o.isReturn = false → allow () o w) {es : List Nat}
    (hc : ops base n es c = some c') : Run (mailbox start base n) allow c c' := by
  induction es generalizing c with
  | nil =>
    obtain rfl := Option.some.inj hc
    exact .refl
  | cons e es ih =>
    simp only [ops] at hc
    split at hc
    · rename_i o k hp
      split at hc
      · cases hc
      · rename_i hok
        split at hc
        · rename_i x w he
          exact .head (.exec hp (h _ _ (Bool.not_eq_true _ ▸ hok)) he) (ih hc)
        · cases hc
    · cases hc

theorem run_of_move (h : ∀ o w, o.isReturn = false → allow () o w) {m : MailMove}
    (hc : move base n c m = some c') : Run (mailbox start base n) allow c c' := by
  cases m with
  | begins call =>
    simp only [move, Option.ite_none_right_eq_some, Option.isNone_iff_eq_none, Option.some.injEq] at hc
    obtain ⟨hnone, rfl⟩ := hc
    exact .single (.begins hnone ⟨call, rfl, rfl⟩)
  | ops es => exact run_of_ops h hc
  | firmware m =>
    simp only [move, Option.map_eq_some_iff] at hc
    obtain ⟨w, hw, rfl⟩ := hc
    exact .single (.env ⟨m, hw⟩)

/-- Schedules of the mailbox are runs. -/
theorem run_of_play (h : ∀ o w, o.isReturn = false → allow () o w) {ms : List MailMove}
    (hc : play base n ms c = some c') : Run (mailbox start base n) allow c c' := by
  induction ms generalizing c with
  | nil =>
    obtain rfl := Option.some.inj hc
    exact .refl
  | cons m ms ih =>
    obtain ⟨c₁, h₁, h₂⟩ := Option.bind_eq_some_iff.mp hc
    exact (run_of_move h h₁).trans (ih h₂)

theorem exists_of_returning {a : MailAnswer} (h : c.returning = some a) :
    ∃ k, c.pool () = some (.vis (.returns a) k) := by
  unfold returning at h
  split at h
  · rename_i k hp
    obtain rfl := Option.some.inj h
    exact ⟨k, hp⟩
  · cases h

/-- A schedule that ends with a call about to return reaches such a configuration. -/
theorem reach_returning (h : ∀ o w, o.isReturn = false → allow () o w) {w : Mailbox}
    (hw : (mailbox start base n).initial w) {ms : List MailMove} {b : MailAnswer → Bool}
    (hb : ((play base n ms ⟨w, fun _ => none⟩).bind returning).any b = true) :
    ∃ c a k, Reach (mailbox start base n) allow c ∧ c.pool () = some (.vis (.returns a) k) ∧ b a = true := by
  cases hc : play base n ms ⟨w, fun _ => none⟩ with
  | none => simp [hc] at hb
  | some c =>
    rw [hc, Option.bind_some, Option.any_eq_true] at hb
    obtain ⟨a, ha, hba⟩ := hb
    obtain ⟨k, hk⟩ := exists_of_returning ha
    exact ⟨c, a, k, ⟨w, hw, run_of_play h hc⟩, hk, hba⟩

end MailConfig

end TtWind
