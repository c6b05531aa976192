import TtWind.Effect.Handle
import TtWind.Driver.Arc

/-!
# The rings over the memory they lie in

The push and the pop of the message rings only use the two CSM accessors. They are written here
over a signature of reads and writes of that memory, of which the driver's code is the handled
form, and all they ever do is listed case by case.
-/

set_option autoImplicit false

namespace TtWind

open TtWind.Effect TtWind.Effect.Prog

/-- An access to the CSM. -/
inductive CsmOp where
  | read (a : UInt32)
  | write (a v : UInt32)
  deriving DecidableEq

namespace CsmOp

/-- What the memory answers: an accessor refuses an address out of range. -/
@[reducible] def Ans : CsmOp → Type
  | .read _ => Except NtStatus UInt32
  | .write _ _ => NtStatus

/-- The address accessed. -/
def addr : CsmOp → UInt32
  | .read a => a
  | .write a _ => a

def isWrite : CsmOp → Bool
  | .read _ => false
  | .write _ _ => true

end CsmOp

/-- Reads and writes of the memory, as a signature. -/
abbrev CsmSig : Sig := ⟨CsmOp, CsmOp.Ans⟩

/-- What one access did. -/
abbrev CsmEvent := (o : CsmOp) × o.Ans

/-- The driver's accessors. -/
def csmAccess : (o : CsmOp) → Drv o.Ans
  | .read a => arcCsmRead32 a
  | .write a v => arcCsmWrite32 a v

/-- The accesses of a history of the driver's. -/
abbrev CsmServes (evs : List CsmEvent) (below : List Event) : Prop :=
  Serves (S := CsmSig) csmAccess evs below

namespace Csm

def read (a : UInt32) : Prog CsmSig (Except NtStatus UInt32) := perform (S := CsmSig) (.read a)

def write (a v : UInt32) : Prog CsmSig NtStatus := perform (S := CsmSig) (.write a v)

/-- The push and the pop of arc.c again, over these reads and writes. -/
def readRingPtr (a : UInt32) : Prog CsmSig (Except NtStatus UInt32) := do
  match ← read a with
  | .error status => return .error status
  | .ok v => if v = 0xFFFFFFFF then return .error .deviceDoesNotExist else return .ok v

def writeWords (a : UInt32) : List UInt32 → Prog CsmSig NtStatus
  | [] => return .success
  | v :: vs => do
    let status ← write a v
    if !status.ok then return status
    writeWords (a + 4) vs

def readWords (a : UInt32) : Nat → Prog CsmSig (Except NtStatus (List UInt32))
  | 0 => return .ok []
  | k + 1 => do
    match ← read a with
    | .error status => return .error status
    | .ok v =>
      match ← readWords (a + 4) k with
      | .error status => return .error status
      | .ok vs => return .ok (v :: vs)

def tryPush (msg : ArcMsg) (queueBase numEntries : UInt32) : Prog CsmSig NtStatus := do
  match ← readRingPtr (reqWptr queueBase) with
  | .error status => return status
  | .ok wptr =>
    match ← readRingPtr (reqRptr queueBase) with
    | .error status => return status
    | .ok rptr =>
      if (wptr - rptr) % (2 * numEntries) ≥ numEntries then return .deviceBusy
      let slot := wptr % numEntries
      let status ← writeWords (queueBase + arcQueueHeaderSize + slot * 32) msg.words
      if !status.ok then return status
      write (reqWptr queueBase) ((wptr + 1) % (2 * numEntries))

def tryPop (queueBase numEntries : UInt32) : Prog CsmSig (Except NtStatus ArcMsg) := do
  match ← readRingPtr (resRptr queueBase) with
  | .error status => return .error status
  | .ok rptr =>
    match ← readRingPtr (resWptr queueBase) with
    | .error status => return .error status
    | .ok wptr =>
      if (wptr - rptr) % (2 * numEntries) = 0 then return .error .deviceBusy
      let slot := rptr % numEntries
      match ← readWords (queueBase + arcQueueHeaderSize + numEntries * 32 + slot * 32) 8 with
      | .error status => return .error status
      | .ok words =>
        let status ← write (resRptr queueBase) ((rptr + 1) % (2 * numEntries))
        if !status.ok then return .error status
        return .ok (.ofWords words)

end Csm

/-! ## The driver's code is this, handled -/

/-- Replacing operations, in both branches. -/
theorem handle_csm_ite {α : Type} {c : Prop} [Decidable c] (p q : Prog CsmSig α) :
    (if c then p else q).handle csmAccess = if c then p.handle csmAccess else q.handle csmAccess :=
  handle_ite (S := CsmSig) csmAccess p q

/-- The handled accesses are those of the driver, and so is all that is built of them. -/
theorem handle_read (a : UInt32) : (Csm.read a).handle csmAccess = arcCsmRead32 a :=
  handle_perform (S := CsmSig) csmAccess (.read a)

theorem handle_write (a v : UInt32) : (Csm.write a v).handle csmAccess = arcCsmWrite32 a v :=
  handle_perform (S := CsmSig) csmAccess (.write a v)

theorem readRingPtr_eq (a : UInt32) : (Csm.readRingPtr a).handle csmAccess = readRingPtr a := by
  unfold readRingPtr Csm.readRingPtr
  rw [handle_bind, handle_read]
  apply congrArg (arcCsmRead32 a >>= ·)
  funext x
  cases x with
  | error status => rfl
  | ok v => exact handle_csm_ite _ _

theorem csmWriteWords_eq (a : UInt32) (vs : List UInt32) :
    (Csm.writeWords a vs).handle csmAccess = csmWriteWords a vs := by
  induction vs generalizing a with
  | nil => rfl
  | cons v vs ih =>
    unfold csmWriteWords Csm.writeWords
    rw [handle_bind, handle_write]
    apply congrArg (arcCsmWrite32 a v >>= ·)
    funext status
    rw [handle_csm_ite, ih]
    rfl

theorem csmReadWords_eq (a : UInt32) (k : Nat) :
    (Csm.readWords a k).handle csmAccess = csmReadWords a k := by
  induction k generalizing a with
  | zero => rfl
  | succ k ih =>
    unfold csmReadWords Csm.readWords
    rw [handle_bind, handle_read]
    apply congrArg (arcCsmRead32 a >>= ·)
    funext x
    cases x with
    | error status => rfl
    | ok v =>
      show (Csm.readWords (a + 4) k >>= _).handle csmAccess = csmReadWords (a + 4) k >>= _
      rw [handle_bind, ih]
      apply congrArg (csmReadWords (a + 4) k >>= ·)
      funext y
      cases y <;> rfl

/-- `TtWindArcTryPush` is the push, with the driver's accessors. -/
theorem arcTryPush_eq (msg : ArcMsg) (base n : UInt32) :
    (Csm.tryPush msg base n).handle csmAccess = arcTryPush msg base n := by
  unfold arcTryPush Csm.tryPush
  rw [handle_bind, readRingPtr_eq]
  apply congrArg (readRingPtr (reqWptr base) >>= ·)
  funext x
  cases x with
  | error status => rfl
  | ok wptr =>
    show (Csm.readRingPtr (reqRptr base) >>= _).handle csmAccess = readRingPtr (reqRptr base) >>= _
    rw [handle_bind, readRingPtr_eq]
    apply congrArg (readRingPtr (reqRptr base) >>= ·)
    funext y
    cases y with
    | error status => rfl
    | ok rptr =>
      simp only [handle_csm_ite, handle_bind, csmWriteWords_eq, handle_write]
      rfl

/-- `TtWindArcTryPop` is the pop, with the driver's accessors. -/
theorem arcTryPop_eq (base n : UInt32) :
    (Csm.tryPop base n).handle csmAccess = arcTryPop base n := by
  unfold arcTryPop Csm.tryPop
  rw [handle_bind, readRingPtr_eq]
  apply congrArg (readRingPtr (resRptr base) >>= ·)
  funext x
  cases x with
  | error status => rfl
  | ok rptr =>
    show (Csm.readRingPtr (resWptr base) >>= _).handle csmAccess = readRingPtr (resWptr base) >>= _
    rw [handle_bind, readRingPtr_eq]
    apply congrArg (readRingPtr (resWptr base) >>= ·)
    funext y
    cases y with
    | error status => rfl
    | ok wptr =>
      simp only [handle_csm_ite, handle_bind, csmReadWords_eq]
      apply if_congr Iff.rfl rfl
      apply congrArg (csmReadWords (base + arcQueueHeaderSize + n * 32 + rptr % n * 32) 8 >>= ·)
      funext z
      cases z with
      | error status => rfl
      | ok words =>
        simp only [handle_csm_ite, handle_bind, handle_write]
        rfl

/-! ## The accessors -/

/-- An accessor can give this answer. -/
def CsmEvent.answered (ev : CsmEvent) : Prop := ∃ run, (csmAccess ev.1).Leads run (.pure ev.2)

/-- The accessor refused the address. -/
def CsmEvent.refused : CsmEvent → Prop
  | ⟨.read _, x⟩ => x = .error .invalidAddress
  | ⟨.write _ _, x⟩ => x = .invalidAddress

theorem and_three_eq_zero (a : UInt32) : a &&& 3 = 0 ↔ a.toNat % 4 = 0 := by
  have hand : (a &&& 3).toNat = a.toNat % 4 := by
    rw [UInt32.toNat_and]
    exact Nat.and_two_pow_sub_one_eq_mod a.toNat 2
  rw [← UInt32.toNat_inj, hand]
  rfl

/-- The accessors refuse what is outside the memory, and what is not aligned. -/
theorem csmRejects_iff {a : UInt32} :
    csmRejects a = true ↔ a.toNat < 0x10000000 ∨ 0x1007FFFC < a.toNat ∨ a.toNat % 4 ≠ 0 := by
  simp only [csmRejects, Bool.or_eq_true, decide_eq_true_eq, bne_iff_ne, ne_eq, and_three_eq_zero,
    UInt32.lt_iff_toNat_lt, or_assoc]
  rfl

/-- A read of an address refused answers an error, any other a value. -/
theorem answered_read {a : UInt32} {x : Except NtStatus UInt32}
    (h : CsmEvent.answered ⟨.read a, x⟩) :
    (csmRejects a = true ∧ x = .error .invalidAddress) ∨ (csmRejects a = false ∧ ∃ v, x = .ok v) := by
  obtain ⟨run, h⟩ := h
  have h : (arcCsmRead32 a).Leads run (.pure x) := h
  unfold arcCsmRead32 at h
  split at h
  · rename_i hrej
    exact .inl ⟨hrej, (leads_pure.mp h).2⟩
  · rename_i hrej
    obtain ⟨v, before, after, -, -, hret⟩ := leads_bind.mp h
    exact .inr ⟨by simpa using hrej, v, (leads_pure.mp hret).2⟩

/-- So does a write. -/
theorem answered_write {a v : UInt32} {x : NtStatus} (h : CsmEvent.answered ⟨.write a v, x⟩) :
    x = if csmRejects a then .invalidAddress else .success := by
  obtain ⟨run, h⟩ := h
  have h : (arcCsmWrite32 a v).Leads run (.pure x) := h
  unfold arcCsmWrite32 at h
  split at h
  · rename_i hrej
    rw [if_pos hrej]
    exact (leads_pure.mp h).2
  · rename_i hrej
    obtain ⟨_, before, after, -, -, hret⟩ := leads_bind.mp h
    rw [if_neg hrej]
    exact (leads_pure.mp hret).2

/-- One access for each word, at consecutive dwords. -/
def wordEvents (access : UInt32 → UInt32 → CsmEvent) (a : UInt32) : List UInt32 → List CsmEvent
  | [] => []
  | v :: vs => access a v :: wordEvents access (a + 4) vs

/-- The reads of consecutive dwords that were answered with these words. -/
def readEvents (a : UInt32) (words : List UInt32) : List CsmEvent :=
  wordEvents (fun a v => ⟨.read a, .ok v⟩) a words

/-- The writes of these words to consecutive dwords. -/
def writeEvents (a : UInt32) (words : List UInt32) : List CsmEvent :=
  wordEvents (fun a v => ⟨.write a v, .success⟩) a words

/-- Words one behind the other lie at the next addresses, where those do not wrap. -/
theorem mem_wordEvents {access : UInt32 → UInt32 → CsmEvent} {a : UInt32} {vs : List UInt32}
    {ev : CsmEvent} (hfit : a.toNat + 4 * vs.length ≤ 2 ^ 32) (h : ev ∈ wordEvents access a vs) :
    ∃ i < vs.length, ∃ b v, ev = access b v ∧ b.toNat = a.toNat + 4 * i := by
  induction vs generalizing a with
  | nil => cases h
  | cons v vs ih =>
    rw [List.length_cons] at hfit
    rcases List.mem_cons.mp h with rfl | htail
    · exact ⟨0, Nat.zero_lt_succ _, a, v, rfl, rfl⟩
    · have hlen : 0 < vs.length := by
        cases vs with
        | nil => cases htail
        | cons v' vs => exact Nat.zero_lt_succ _
      have hnext : (a + 4).toNat = a.toNat + 4 := by
        rw [UInt32.toNat_add]
        exact Nat.mod_eq_of_lt (by show a.toNat + 4 < 2 ^ 32; omega)
      obtain ⟨i, hi, b, v', rfl, hb⟩ := ih (by omega) htail
      exact ⟨i + 1, Nat.succ_lt_succ hi, b, v', rfl, by omega⟩

/-- Consecutive dwords from an address on, all of which the accessors take. -/
def Taken (a : UInt32) : Nat → Prop
  | 0 => True
  | k + 1 => csmRejects a = false ∧ Taken (a + 4) k

/-- An access that is not refused is one event. -/
theorem read_trace {a : UInt32} {evs : List CsmEvent} {r : Except NtStatus UInt32}
    (ha : csmRejects a = false) (h : (Csm.read a).Leads evs (.pure r))
    (hans : ∀ ev ∈ evs, CsmEvent.answered ev) : ∃ v, r = .ok v ∧ evs = [⟨.read a, .ok v⟩] := by
  obtain rfl := (leads_perform (S := CsmSig)).mp h
  obtain ⟨hrej, -⟩ | ⟨-, v, rfl⟩ := answered_read (hans _ List.mem_cons_self)
  · rw [ha] at hrej
    cases hrej
  · exact ⟨v, rfl, rfl⟩

theorem write_trace {a v : UInt32} {evs : List CsmEvent} {r : NtStatus}
    (ha : csmRejects a = false) (h : (Csm.write a v).Leads evs (.pure r))
    (hans : ∀ ev ∈ evs, CsmEvent.answered ev) : r = .success ∧ evs = [⟨.write a v, .success⟩] := by
  obtain rfl := (leads_perform (S := CsmSig)).mp h
  have hr := answered_write (hans _ List.mem_cons_self)
  rw [ha] at hr
  obtain rfl : r = .success := hr
  exact ⟨rfl, rfl⟩

/-- Words written in memory that is there are all written, in order. -/
theorem writeWords_trace {a : UInt32} {vs : List UInt32} {evs : List CsmEvent} {r : NtStatus}
    (ha : Taken a vs.length) (h : (Csm.writeWords a vs).Leads evs (.pure r))
    (hans : ∀ ev ∈ evs, CsmEvent.answered ev) :
    r = .success ∧ evs.reverse = writeEvents a vs := by
  induction vs generalizing a evs with
  | nil =>
    obtain ⟨rfl, rfl⟩ := leads_pure.mp h
    exact ⟨rfl, rfl⟩
  | cons v vs ih =>
    obtain ⟨status, before, after, rfl, hw, hrest⟩ := leads_bind.mp h
    obtain ⟨rfl, rfl⟩ := write_trace ha.1 hw fun ev hev => hans ev (List.mem_append_right _ hev)
    obtain ⟨hr, htail⟩ := ih ha.2 hrest fun ev hev => hans ev (List.mem_append_left _ hev)
    refine ⟨hr, ?_⟩
    rw [List.reverse_append, htail]
    rfl

/-- Words read in memory that is there are all read, in order. -/
theorem readWords_trace {a : UInt32} {k : Nat} {evs : List CsmEvent} {r : Except NtStatus (List UInt32)}
    (ha : Taken a k) (h : (Csm.readWords a k).Leads evs (.pure r))
    (hans : ∀ ev ∈ evs, CsmEvent.answered ev) :
    ∃ words, words.length = k ∧ r = .ok words ∧ evs.reverse = readEvents a words := by
  induction k generalizing a evs r with
  | zero =>
    obtain ⟨rfl, rfl⟩ := leads_pure.mp h
    exact ⟨[], rfl, rfl, rfl⟩
  | succ k ih =>
    obtain ⟨x, before, after, rfl, hread, hrest⟩ := leads_bind.mp h
    obtain ⟨v, rfl, rfl⟩ := read_trace ha.1 hread fun ev hev => hans ev (List.mem_append_right _ hev)
    obtain ⟨y, before', after', rfl, hwords, hret⟩ := leads_bind.mp hrest
    obtain ⟨words, hlen, rfl, htail⟩ := ih ha.2 hwords fun ev hev =>
      hans ev (List.mem_append_left _ (List.mem_append_right _ hev))
    obtain ⟨rfl, rfl⟩ := leads_pure.mp hret
    refine ⟨v :: words, congrArg (· + 1) hlen, rfl, ?_⟩
    rw [List.nil_append, List.reverse_append, htail]
    rfl

/-- A ring pointer read from an address the accessors take: all-1s, or its value. -/
theorem readRingPtr_trace {a : UInt32} {evs : List CsmEvent} {r : Except NtStatus UInt32}
    (ha : csmRejects a = false) (h : (Csm.readRingPtr a).Leads evs (.pure r))
    (hans : ∀ ev ∈ evs, CsmEvent.answered ev) :
    ∃ v, evs = [⟨.read a, .ok v⟩] ∧
      r = if v = 0xFFFFFFFF then .error .deviceDoesNotExist else .ok v := by
  obtain ⟨x, before, after, rfl, hread, hrest⟩ := leads_bind.mp h
  obtain ⟨v, rfl, rfl⟩ := read_trace ha hread fun ev hev => hans ev (List.mem_append_right _ hev)
  refine ⟨v, ?_⟩
  dsimp only at hrest
  split at hrest
  · rename_i hv
    obtain ⟨rfl, rfl⟩ := leads_pure.mp hrest
    exact ⟨rfl, (if_pos hv).symm⟩
  · rename_i hv
    obtain ⟨rfl, rfl⟩ := leads_pure.mp hrest
    exact ⟨rfl, (if_neg hv).symm⟩

/-- A ring pointer at an address the accessors refuse. -/
theorem readRingPtr_refused {a : UInt32} {evs : List CsmEvent} {r : Except NtStatus UInt32}
    (ha : csmRejects a = true) (h : (Csm.readRingPtr a).Leads evs (.pure r))
    (hans : ∀ ev ∈ evs, CsmEvent.answered ev) :
    evs = [⟨.read a, .error .invalidAddress⟩] ∧ r = .error .invalidAddress := by
  obtain ⟨x, before, after, rfl, hread, hrest⟩ := leads_bind.mp h
  obtain rfl := (leads_perform (S := CsmSig)).mp hread
  obtain ⟨-, rfl⟩ | ⟨hrej, -⟩ := answered_read (hans _ (List.mem_append_right _ List.mem_cons_self))
  · obtain ⟨rfl, rfl⟩ := leads_pure.mp hrest
    exact ⟨rfl, rfl⟩
  · rw [ha] at hrej
    cases hrej

/-! ## A ring within the CSM -/

/-- A base and an entry count that the queue check lets through. -/
structure Located (base n : UInt32) : Prop where
  pos : 0 < n.toNat
  small : n.toNat ≤ 255
  low : 0x10000000 ≤ base.toNat
  high : base.toNat + 32 + 64 * n.toNat ≤ 0x10080000

/-- The first word of a slot of the request ring. -/
def requestSlot (base slot : UInt32) : UInt32 := base + arcQueueHeaderSize + slot * 32

/-- The first word of a slot of the response ring. -/
def responseSlot (base n slot : UInt32) : UInt32 := base + arcQueueHeaderSize + n * 32 + slot * 32

namespace Located

variable {base n : UInt32} (h : Located base n)

include h

/-- The size in entries of a queue doubles without wrapping. -/
theorem twice_toNat : (2 * n).toNat = 2 * n.toNat := by
  have hsmall := h.small
  rw [UInt32.toNat_mul]
  exact Nat.mod_eq_of_lt (by show 2 * n.toNat < 2 ^ 32; omega)

theorem header_toNat {o : UInt32} (hoff : o.toNat < 32) : (base + o).toNat = base.toNat + o.toNat := by
  have hhigh := h.high
  rw [UInt32.toNat_add]
  omega

theorem slot_lt (v : UInt32) : (v % n).toNat < n.toNat := by
  rw [UInt32.toNat_mod]
  exact Nat.mod_lt _ h.pos

/-- The address of a slot is the one meant, where the queue does not wrap. -/
theorem requestSlot_toNat {slot : UInt32} (hs : slot.toNat < n.toNat) :
    (requestSlot base slot).toNat = base.toNat + 32 + slot.toNat * 32 := by
  have hhigh := h.high
  have hsmall := h.small
  have h32 : (32 : UInt32).toNat = 32 := rfl
  rw [requestSlot, arcQueueHeaderSize, UInt32.toNat_add, UInt32.toNat_add, UInt32.toNat_mul, h32]
  omega

theorem responseSlot_toNat {slot : UInt32} (hs : slot.toNat < n.toNat) :
    (responseSlot base n slot).toNat = base.toNat + 32 + n.toNat * 32 + slot.toNat * 32 := by
  have hhigh := h.high
  have hsmall := h.small
  have h32 : (32 : UInt32).toNat = 32 := rfl
  rw [responseSlot, arcQueueHeaderSize, UInt32.toNat_add, UInt32.toNat_add, UInt32.toNat_add,
    UInt32.toNat_mul, UInt32.toNat_mul, h32]
  omega

/-- A header word of a ring is refused exactly if the ring is not aligned. -/
theorem header_rejects {o : UInt32} (hoff : o.toNat < 32) (h4 : o.toNat % 4 = 0) :
    csmRejects (base + o) = true ↔ base.toNat % 4 ≠ 0 := by
  have hlow := h.low
  have hhigh := h.high
  have hpos := h.pos
  rw [csmRejects_iff, h.header_toNat hoff]
  omega

end Located

/-- Aligned dwords within the CSM are taken. -/
theorem taken_of_within {a : UInt32} {k : Nat} (h4 : a.toNat % 4 = 0) (hlow : 0x10000000 ≤ a.toNat)
    (hhigh : a.toNat + 4 * k ≤ 0x10080000) : Taken a k := by
  induction k generalizing a with
  | zero => trivial
  | succ k ih =>
    have hnext : (a + 4).toNat = a.toNat + 4 := by
      rw [UInt32.toNat_add]
      exact Nat.mod_eq_of_lt (by show a.toNat + 4 < 2 ^ 32; omega)
    constructor
    · rw [← Bool.not_eq_true, csmRejects_iff]
      omega
    · apply ih <;> omega

/-! ## Everything a push and a pop do -/

/-- What a push does on an aligned ring, first to last, and its status. -/
inductive PushTrace (msg : ArcMsg) (base n : UInt32) : List CsmEvent → NtStatus → Prop where
  | writerGone : PushTrace msg base n [⟨.read (reqWptr base), .ok 0xFFFFFFFF⟩] .deviceDoesNotExist
  | readerGone {w : UInt32} : w ≠ 0xFFFFFFFF →
      PushTrace msg base n [⟨.read (reqWptr base), .ok w⟩, ⟨.read (reqRptr base), .ok 0xFFFFFFFF⟩]
        .deviceDoesNotExist
  | full {w r : UInt32} : w ≠ 0xFFFFFFFF → r ≠ 0xFFFFFFFF → n ≤ (w - r) % (2 * n) →
      PushTrace msg base n [⟨.read (reqWptr base), .ok w⟩, ⟨.read (reqRptr base), .ok r⟩] .deviceBusy
  | pushed {w r : UInt32} : w ≠ 0xFFFFFFFF → r ≠ 0xFFFFFFFF → ¬ n ≤ (w - r) % (2 * n) →
      PushTrace msg base n
        ([⟨.read (reqWptr base), .ok w⟩, ⟨.read (reqRptr base), .ok r⟩] ++
          writeEvents (requestSlot base (w % n)) msg.words ++
          [⟨.write (reqWptr base) ((w + 1) % (2 * n)), .success⟩]) .success

/-- What a pop does on an aligned ring, first to last, and its answer. -/
inductive PopTrace (base n : UInt32) : List CsmEvent → Except NtStatus ArcMsg → Prop where
  | readerGone : PopTrace base n [⟨.read (resRptr base), .ok 0xFFFFFFFF⟩] (.error .deviceDoesNotExist)
  | writerGone {r : UInt32} : r ≠ 0xFFFFFFFF →
      PopTrace base n [⟨.read (resRptr base), .ok r⟩, ⟨.read (resWptr base), .ok 0xFFFFFFFF⟩]
        (.error .deviceDoesNotExist)
  | empty {w r : UInt32} : r ≠ 0xFFFFFFFF → w ≠ 0xFFFFFFFF → (w - r) % (2 * n) = 0 →
      PopTrace base n [⟨.read (resRptr base), .ok r⟩, ⟨.read (resWptr base), .ok w⟩]
        (.error .deviceBusy)
  | popped {w r : UInt32} {words : List UInt32} : r ≠ 0xFFFFFFFF → w ≠ 0xFFFFFFFF →
      (w - r) % (2 * n) ≠ 0 → words.length = 8 →
      PopTrace base n
        ([⟨.read (resRptr base), .ok r⟩, ⟨.read (resWptr base), .ok w⟩] ++
          readEvents (responseSlot base n (r % n)) words ++
          [⟨.write (resRptr base) ((r + 1) % (2 * n)), .success⟩]) (.ok (.ofWords words))

section Traces

variable {base n : UInt32} (hring : Located base n) {evs : List CsmEvent}

include hring

/-- The pointers of an aligned queue are aligned. -/
theorem aligned_header (h4 : base.toNat % 4 = 0) {o : UInt32} (hoff : o.toNat < 32)
    (hoff4 : o.toNat % 4 = 0) : csmRejects (base + o) = false := by
  rw [← Bool.not_eq_true, hring.header_rejects hoff hoff4]
  exact fun hne => hne h4

/-- A push of an aligned queue goes one of the ways listed. -/
theorem tryPush_trace {msg : ArcMsg} {r : NtStatus} (h4 : base.toNat % 4 = 0)
    (h : (Csm.tryPush msg base n).Leads evs (.pure r)) (hans : ∀ ev ∈ evs, CsmEvent.answered ev) :
    PushTrace msg base n evs.reverse r := by
  have hlow := hring.low
  have hhigh := hring.high
  obtain ⟨x, e₁, e₂, rfl, hwptr, h₁⟩ := leads_bind.mp h
  obtain ⟨w, rfl, rfl⟩ := readRingPtr_trace (aligned_header hring h4 (by decide) (by decide)) hwptr
    fun ev hev => hans ev (List.mem_append_right _ hev)
  by_cases hw : w = 0xFFFFFFFF
  · subst hw
    obtain ⟨rfl, rfl⟩ := leads_pure.mp h₁
    exact .writerGone
  rw [if_neg hw] at h₁
  obtain ⟨y, e₃, e₄, rfl, hrptr, h₂⟩ := leads_bind.mp h₁
  obtain ⟨v, rfl, rfl⟩ := readRingPtr_trace (aligned_header hring h4 (by decide) (by decide)) hrptr
    fun ev hev => hans ev (List.mem_append_left _ (List.mem_append_right _ hev))
  by_cases hv : v = 0xFFFFFFFF
  · subst hv
    obtain ⟨rfl, rfl⟩ := leads_pure.mp h₂
    exact .readerGone hw
  rw [if_neg hv] at h₂
  dsimp only at h₂
  split at h₂
  · rename_i hfull
    obtain ⟨rfl, rfl⟩ := leads_pure.mp h₂
    exact .full hw hv hfull
  · rename_i hroom
    have hslot := hring.slot_lt w
    have hstart : (requestSlot base (w % n)).toNat = _ := hring.requestSlot_toNat hslot
    have htaken : Taken (requestSlot base (w % n)) msg.words.length := by
      have hlen : msg.words.length = 8 := by simp [ArcMsg.words]
      apply taken_of_within <;> omega
    obtain ⟨status, e₅, e₆, rfl, hwords, h₃⟩ := leads_bind.mp h₂
    obtain ⟨rfl, hwritten⟩ := writeWords_trace htaken hwords fun ev hev =>
      hans ev (List.mem_append_left _ (List.mem_append_left _ (List.mem_append_right _ hev)))
    have h₃ : (Csm.write (reqWptr base) ((w + 1) % (2 * n))).Leads e₆ (.pure r) := h₃
    obtain ⟨rfl, rfl⟩ := write_trace (aligned_header hring h4 (by decide) (by decide)) h₃ fun ev hev =>
      hans ev (List.mem_append_left _ (List.mem_append_left _ (List.mem_append_left _ hev)))
    simp only [List.reverse_append, hwritten]
    exact .pushed hw hv hroom

/-- So does a pop. -/
theorem tryPop_trace {r : Except NtStatus ArcMsg} (h4 : base.toNat % 4 = 0)
    (h : (Csm.tryPop base n).Leads evs (.pure r)) (hans : ∀ ev ∈ evs, CsmEvent.answered ev) :
    PopTrace base n evs.reverse r := by
  have hlow := hring.low
  have hhigh := hring.high
  obtain ⟨x, e₁, e₂, rfl, hrptr, h₁⟩ := leads_bind.mp h
  obtain ⟨v, rfl, rfl⟩ := readRingPtr_trace (aligned_header hring h4 (by decide) (by decide)) hrptr
    fun ev hev => hans ev (List.mem_append_right _ hev)
  by_cases hv : v = 0xFFFFFFFF
  · subst hv
    obtain ⟨rfl, rfl⟩ := leads_pure.mp h₁
    exact .readerGone
  rw [if_neg hv] at h₁
  obtain ⟨y, e₃, e₄, rfl, hwptr, h₂⟩ := leads_bind.mp h₁
  obtain ⟨w, rfl, rfl⟩ := readRingPtr_trace (aligned_header hring h4 (by decide) (by decide)) hwptr
    fun ev hev => hans ev (List.mem_append_left _ (List.mem_append_right _ hev))
  by_cases hw : w = 0xFFFFFFFF
  · subst hw
    obtain ⟨rfl, rfl⟩ := leads_pure.mp h₂
    exact .writerGone hv
  rw [if_neg hw] at h₂
  dsimp only at h₂
  split at h₂
  · rename_i hempty
    obtain ⟨rfl, rfl⟩ := leads_pure.mp h₂
    exact .empty hv hw hempty
  · rename_i hready
    have hslot := hring.slot_lt v
    have hstart : (responseSlot base n (v % n)).toNat = _ := hring.responseSlot_toNat hslot
    have htaken : Taken (responseSlot base n (v % n)) 8 := by
      apply taken_of_within <;> omega
    obtain ⟨z, e₅, e₆, rfl, hread, h₃⟩ := leads_bind.mp h₂
    obtain ⟨words, hlen, rfl, hwords⟩ := readWords_trace htaken hread fun ev hev =>
      hans ev (List.mem_append_left _ (List.mem_append_left _ (List.mem_append_right _ hev)))
    obtain ⟨status, e₇, e₈, rfl, hwrite, h₄⟩ := leads_bind.mp h₃
    obtain ⟨rfl, rfl⟩ := write_trace (aligned_header hring h4 (by decide) (by decide)) hwrite fun ev hev =>
      hans ev (List.mem_append_left _ (List.mem_append_left _
        (List.mem_append_left _ (List.mem_append_right _ hev))))
    obtain ⟨rfl, rfl⟩ := leads_pure.mp h₄
    simp only [List.reverse_append, hwords, List.nil_append]
    exact .popped hv hw hready hlen

end Traces

end TtWind
