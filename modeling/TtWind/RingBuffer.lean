import Mathlib.Data.List.Range
import Mathlib.Data.Nat.ModEq
import Mathlib.Data.Nat.Prime.Basic
import Mathlib.Data.Set.Defs

/-!
# Queues in a ring

A ring of `n` slots between a producer and a consumer. Each has a counter that runs modulo `2 * n`,
so that a full ring and an empty one differ, and a counter's slot is its value modulo `n`.
`contents` is the queue such a ring stands for; the producer's step appends to it what the
producer's slot holds, the consumer's step removes the oldest entry, and a write to the producer's
slot does not change it while there is room.

Machines compute the occupancy as a difference that wraps at some `M`. `wrapped` is this number: it
tells a full ring from one with room exactly if `2 * n` divides `M`.
-/

set_option autoImplicit false

namespace TtWind.RingQueue

variable {α : Type} {n M w r : Nat}

/-- How many entries lie between the consumer's counter `r` and the producer's counter `w`. -/
def occupancy (n w r : Nat) : Nat := (w + (2 * n - r)) % (2 * n)

/-- A counter, one on. -/
def advance (n v : Nat) : Nat := (v + 1) % (2 * n)

/-- The entries, the oldest first. -/
def contents (n : Nat) (slot : Nat → α) (w r : Nat) : List α :=
  (List.range (occupancy n w r)).map fun i => slot ((r + i) % n)

@[simp] theorem contents_length (slot : Nat → α) : (contents n slot w r).length = occupancy n w r := by
  simp [contents]

theorem advance_lt (hn : 0 < n) (v : Nat) : advance n v < 2 * n := Nat.mod_lt _ (by omega)

theorem advance_of_lt {v : Nat} (hv : v + 1 < 2 * n) : advance n v = v + 1 := Nat.mod_eq_of_lt hv

theorem advance_last {v : Nat} (hv : v + 1 = 2 * n) : advance n v = 0 := by
  rw [advance, hv, Nat.mod_self]

theorem occupancy_of_le (hw : w < 2 * n) (hle : r ≤ w) : occupancy n w r = w - r := by
  have hsum : w + (2 * n - r) = (w - r) + 2 * n := by omega
  rw [occupancy, hsum, Nat.add_mod_right, Nat.mod_eq_of_lt (by omega)]

theorem occupancy_of_gt (hr : r < 2 * n) (hlt : w < r) : occupancy n w r = w + (2 * n - r) :=
  Nat.mod_eq_of_lt (by omega)

/-- The producer's counter is the occupancy further than the consumer's. -/
theorem add_occupancy (hw : w < 2 * n) (hr : r < 2 * n) :
    r + occupancy n w r = w ∨ r + occupancy n w r = w + 2 * n := by
  rcases Nat.lt_or_ge w r with hlt | hle
  · rw [occupancy_of_gt hr hlt]
    omega
  · rw [occupancy_of_le hw hle]
    omega

/-- The slot behind the newest entry is the producer's. -/
theorem slot_add_occupancy (hw : w < 2 * n) (hr : r < 2 * n) : (r + occupancy n w r) % n = w % n := by
  rcases add_occupancy hw hr with h | h
  · rw [h]
  · rw [h, Nat.add_mul_mod_self_right]

/-- Entries less than `n` apart lie in different slots. -/
theorem slot_injective {i j : Nat} (hi : i < n) (hj : j < n) (h : (r + i) % n = (r + j) % n) : i = j := by
  have hmod : i % n = j % n := Nat.ModEq.add_left_cancel' r h
  rwa [Nat.mod_eq_of_lt hi, Nat.mod_eq_of_lt hj] at hmod

/-! ## The producer's step -/

theorem occupancy_advance_left (hw : w < 2 * n) (hr : r < 2 * n) (hroom : occupancy n w r + 1 < 2 * n) :
    occupancy n (advance n w) r = occupancy n w r + 1 := by
  rcases Nat.lt_or_ge w r with hlt | hle
  · rw [occupancy_of_gt hr hlt] at hroom ⊢
    rw [advance_of_lt (by omega)]
    rcases Nat.lt_or_ge (w + 1) r with hlt' | hle'
    · rw [occupancy_of_gt hr hlt']
      omega
    · omega
  · rw [occupancy_of_le hw hle] at hroom ⊢
    rcases Nat.lt_or_ge (w + 1) (2 * n) with hw' | hw'
    · rw [advance_of_lt hw', occupancy_of_le hw' (by omega)]
      omega
    · rw [advance_last (by omega), occupancy_of_gt hr (by omega)]
      omega

/-- The producer's step appends what its slot holds. -/
theorem contents_advance_left (slot : Nat → α) (hw : w < 2 * n) (hr : r < 2 * n)
    (hroom : occupancy n w r < n) :
    contents n slot (advance n w) r = contents n slot w r ++ [slot (w % n)] := by
  rw [contents, occupancy_advance_left hw hr (by omega), List.range_succ, List.map_append, List.map_singleton,
    slot_add_occupancy hw hr, ← contents]

/-! ## The consumer's step -/

theorem occupancy_advance_right (hw : w < 2 * n) (hr : r < 2 * n) (hsome : occupancy n w r ≠ 0) :
    occupancy n w (advance n r) + 1 = occupancy n w r := by
  rcases Nat.lt_or_ge w r with hlt | hle
  · rw [occupancy_of_gt hr hlt]
    rcases Nat.lt_or_ge (r + 1) (2 * n) with hr' | hr'
    · rw [advance_of_lt hr', occupancy_of_gt hr' (by omega)]
      omega
    · rw [advance_last (by omega), occupancy_of_le hw (Nat.zero_le w)]
      omega
  · rw [occupancy_of_le hw hle] at hsome ⊢
    rw [advance_of_lt (by omega), occupancy_of_le hw (by omega)]
    omega

theorem slot_advance (i : Nat) : (advance n r + i) % n = (r + (i + 1)) % n := by
  have hstep : advance n r ≡ r + 1 [MOD n] := (Nat.mod_modEq _ _).of_dvd ⟨2, Nat.mul_comm 2 n⟩
  calc (advance n r + i) % n = (r + 1 + i) % n := hstep.add_right i
    _ = (r + (i + 1)) % n := by rw [Nat.add_assoc, Nat.add_comm 1 i]

/-- The consumer's step removes the oldest entry, which its slot holds. -/
theorem contents_advance_right (slot : Nat → α) (hw : w < 2 * n) (hr : r < 2 * n)
    (hsome : occupancy n w r ≠ 0) :
    contents n slot w r = slot (r % n) :: contents n slot w (advance n r) := by
  rw [contents, ← occupancy_advance_right hw hr hsome, List.range_succ_eq_map, List.map_cons, List.map_map,
    Nat.add_zero, contents]
  apply congrArg (slot (r % n) :: ·)
  apply List.map_congr_left
  intro i _
  exact congrArg slot (slot_advance i).symm

/-! ## Writes to the slots -/

/-- Only the slots of the entries count. -/
theorem contents_congr {slot slot' : Nat → α}
    (h : ∀ i < occupancy n w r, slot' ((r + i) % n) = slot ((r + i) % n)) :
    contents n slot' w r = contents n slot w r :=
  List.map_congr_left fun i hi => h i (List.mem_range.mp hi)

/-- While there is room, the producer's slot holds no entry. -/
theorem contents_write {slot slot' : Nat → α} (hw : w < 2 * n) (hr : r < 2 * n) (hroom : occupancy n w r < n)
    (h : ∀ i < n, i ≠ w % n → slot' i = slot i) : contents n slot' w r = contents n slot w r := by
  apply contents_congr
  intro i hi
  apply h _ (Nat.mod_lt _ (by omega))
  rw [← slot_add_occupancy hw hr]
  intro hsame
  have hi' := slot_injective (by omega) hroom hsame
  omega

/-! ## The occupancy in machine words -/

/-- The occupancy as words of `M` values give it: the difference wraps at `M`. -/
def wrapped (M n w r : Nat) : Nat := (w + (M - r)) % M % (2 * n)

theorem wrapped_of_le (hle : r ≤ w) (hw : w < M) : wrapped M n w r = (w - r) % (2 * n) := by
  have hsum : w + (M - r) = (w - r) + M := by omega
  rw [wrapped, hsum, Nat.add_mod_right, Nat.mod_eq_of_lt (by omega : w - r < M)]

theorem wrapped_of_gt (hlt : w < r) (hr : r ≤ M) : wrapped M n w r = (w + (M - r)) % (2 * n) := by
  rw [wrapped, Nat.mod_eq_of_lt (by omega : w + (M - r) < M)]

/-- If the words wrap at a multiple of `2 * n`, they give the occupancy. -/
theorem wrapped_eq_occupancy (hdvd : 2 * n ∣ M) (hM : 0 < M) (hw : w < 2 * n) (hr : r < 2 * n) :
    wrapped M n w r = occupancy n w r := by
  have hbound := Nat.le_of_dvd hM hdvd
  rcases Nat.lt_or_ge w r with hlt | hle
  · obtain ⟨q, rfl⟩ := hdvd
    have hq : q ≠ 0 := by
      rintro rfl
      omega
    obtain ⟨q, rfl⟩ := Nat.exists_eq_succ_of_ne_zero hq
    have hsum : w + (2 * n * (q + 1) - r) = w + (2 * n - r) + 2 * n * q := by
      rw [Nat.mul_succ]
      omega
    rw [wrapped_of_gt hlt (by omega), Nat.succ_eq_add_one, hsum, Nat.add_mul_mod_self_left, occupancy]
  · rw [wrapped_of_le hle (by omega), occupancy_of_le hw hle, Nat.mod_eq_of_lt (by omega)]

/-- Binary words wrap with the counters of a ring exactly if it has a power of two slots. -/
theorem dvd_words_iff {k : Nat} (hn : 0 < n) (hbound : 2 * n ≤ 2 ^ k) : 2 * n ∣ 2 ^ k ↔ ∃ i, n = 2 ^ i := by
  constructor
  · intro hdvd
    obtain ⟨j, -, hj⟩ := (Nat.dvd_prime_pow Nat.prime_two).mp hdvd
    cases j with
    | zero => omega
    | succ i =>
      rw [pow_succ] at hj
      exact ⟨i, by omega⟩
  · rintro ⟨i, rfl⟩
    rw [← pow_succ'] at hbound ⊢
    exact pow_dvd_pow 2 ((Nat.pow_le_pow_iff_right (by omega)).mp hbound)

/-- If they do not, they take a ring for full that has room, or for one with room that is full. -/
theorem exists_wrapped_wrong (hn : 0 < n) (hbound : 2 * n ≤ M) (hdvd : ¬ 2 * n ∣ M) :
    ∃ w r, w < 2 * n ∧ r < 2 * n ∧ occupancy n w r ≤ n ∧ ¬ (n ≤ wrapped M n w r ↔ occupancy n w r = n) := by
  have hpos : 0 < 2 * n := by omega
  have hrest : M % (2 * n) ≠ 0 := fun h => hdvd (Nat.dvd_of_mod_eq_zero h)
  have hlt := Nat.mod_lt M hpos
  have hM : M = 2 * n * (M / (2 * n)) + M % (2 * n) := (Nat.div_add_mod M (2 * n)).symm
  have hq : 0 < M / (2 * n) := Nat.div_pos hbound hpos
  obtain ⟨q, hq⟩ := Nat.exists_eq_succ_of_ne_zero (Nat.pos_iff_ne_zero.mp hq)
  rw [hq, Nat.mul_succ] at hM
  -- the consumer stands at the last counter value, and the producer has wrapped
  have hvalue : ∀ w, w < 2 * n - 1 → wrapped M n w (2 * n - 1) = (w + 1 + M % (2 * n)) % (2 * n) := by
    intro w hw
    have hsum : w + (M - (2 * n - 1)) = w + 1 + M % (2 * n) + 2 * n * q := by omega
    rw [wrapped_of_gt hw (by omega), hsum, Nat.add_mul_mod_self_left]
  rcases Nat.lt_or_ge (M % (2 * n)) n with hsmall | hlarge
  · -- `n - 1` entries are taken for at least `n`
    refine ⟨n - 2, 2 * n - 1, by omega, by omega, ?_⟩
    rw [hvalue _ (by omega), occupancy_of_gt (by omega) (by omega), Nat.mod_eq_of_lt (by omega)]
    omega
  · -- `n` entries are taken for fewer
    refine ⟨n - 1, 2 * n - 1, by omega, by omega, ?_⟩
    have hsum : n - 1 + 1 + M % (2 * n) = (M % (2 * n) - n) + 2 * n := by omega
    rw [hvalue _ (by omega), occupancy_of_gt (by omega) (by omega), hsum, Nat.add_mod_right,
      Nat.mod_eq_of_lt (by omega)]
    omega

end TtWind.RingQueue

namespace TtWind

open RingQueue

/-! ## Rings in memory -/

/-- Where a ring lies in a memory of `V` words, and what an entry is: the addresses of the two counters,
and the cells of each slot. -/
structure RingBuffer (V α : Type) where
  size : Nat
  writer : Nat
  reader : Nat
  value : V → Nat
  cells : Nat → Set Nat
  entry : (Nat → V) → Nat → α
  entry_congr : ∀ {i mem mem'}, (∀ x ∈ cells i, mem' x = mem x) → entry mem' i = entry mem i
  cells_ne : ∀ {i j x}, i < size → j < size → i ≠ j → x ∈ cells i → x ∉ cells j
  writer_ne_reader : writer ≠ reader
  writer_not_mem : ∀ {i}, i < size → writer ∉ cells i
  reader_not_mem : ∀ {i}, i < size → reader ∉ cells i

namespace RingBuffer

variable {V α : Type} (q : RingBuffer V α) (mem : Nat → V)

/-- The counters as they stand in memory. -/
def written (mem : Nat → V) : Nat := q.value (mem q.writer)

def consumed (mem : Nat → V) : Nat := q.value (mem q.reader)

/-- The slot the producer fills next, and the one the consumer reads next. -/
def next (mem : Nat → V) : Nat := q.written mem % q.size

def oldest (mem : Nat → V) : Nat := q.consumed mem % q.size

def outstanding (mem : Nat → V) : Nat := occupancy q.size (q.written mem) (q.consumed mem)

/-- The entries of the ring, the oldest first. -/
def queue (mem : Nat → V) : List α := contents q.size (q.entry mem) (q.written mem) (q.consumed mem)

/-- The address belongs to the ring. -/
def Owns (x : Nat) : Prop := x = q.writer ∨ x = q.reader ∨ ∃ i < q.size, x ∈ q.cells i

/-- The ring carries what was put in and not yet taken out, in order, and no more than it has slots. -/
structure Carries (mem : Nat → V) (out into : List α) : Prop where
  writer_lt : q.written mem < 2 * q.size
  reader_lt : q.consumed mem < 2 * q.size
  room : q.outstanding mem ≤ q.size
  entries : into = out ++ q.queue mem

namespace Carries

variable {q mem} {mem' : Nat → V} {out into : List α}

theorem length (h : q.Carries mem out into) : into.length = out.length + q.outstanding mem := by
  rw [h.entries, List.length_append, queue, contents_length, outstanding]

theorem size_pos (h : q.Carries mem out into) : 0 < q.size := by
  have := h.reader_lt
  omega

theorem next_lt (h : q.Carries mem out into) : q.next mem < q.size := Nat.mod_lt _ h.size_pos

/-- What was taken out was put in, in the same order. -/
theorem isPrefix (h : q.Carries mem out into) : out <+: into := ⟨q.queue mem, h.entries.symm⟩

theorem bounded (h : q.Carries mem out into) : into.length ≤ out.length + q.size := by
  have hlen := h.length
  have hroom := h.room
  omega

/-- While something is in the ring, the consumer's slot holds the next entry to take out. -/
theorem head (h : q.Carries mem out into) (hsome : out.length < into.length) :
    into = out ++ [q.entry mem (q.oldest mem)] ++ into.drop (out.length + 1) := by
  have hlen := h.length
  have hcontents : q.queue mem = _ :=
    contents_advance_right (q.entry mem) h.writer_lt h.reader_lt (by rw [← outstanding]; omega)
  have hinto := h.entries
  rw [hcontents] at hinto
  conv_lhs => rw [hinto]
  rw [hinto, List.append_assoc, List.singleton_append, oldest]
  simp

/-- A memory that differs elsewhere. -/
theorem frame (h : q.Carries mem out into) (hmem : ∀ x, q.Owns x → mem' x = mem x) : q.Carries mem' out into := by
  have hw : q.written mem' = q.written mem := congrArg q.value (hmem _ (.inl rfl))
  have hr : q.consumed mem' = q.consumed mem := congrArg q.value (hmem _ (.inr (.inl rfl)))
  have hqueue : q.queue mem' = q.queue mem := by
    rw [queue, hw, hr]
    apply contents_congr
    intro i _
    apply q.entry_congr
    intro x hx
    exact hmem x (.inr (.inr ⟨_, Nat.mod_lt _ h.size_pos, hx⟩))
  constructor
  · rw [hw]
    exact h.writer_lt
  · rw [hr]
    exact h.reader_lt
  · rw [outstanding, hw, hr]
    exact h.room
  · rw [hqueue]
    exact h.entries

/-- While there is room, the producer may write the cells of its slot. -/
theorem fill (h : q.Carries mem out into) (hroom : into.length < out.length + q.size)
    (hmem : ∀ x, q.Owns x → x ∉ q.cells (q.next mem) → mem' x = mem x) : q.Carries mem' out into := by
  have hlen := h.length
  have hw : q.written mem' = q.written mem :=
    congrArg q.value (hmem _ (.inl rfl) (q.writer_not_mem h.next_lt))
  have hr : q.consumed mem' = q.consumed mem :=
    congrArg q.value (hmem _ (.inr (.inl rfl)) (q.reader_not_mem h.next_lt))
  have hqueue : q.queue mem' = q.queue mem := by
    rw [queue, hw, hr]
    apply contents_write h.writer_lt h.reader_lt (by rw [← outstanding]; omega)
    intro i hi hne
    apply q.entry_congr
    intro x hx
    exact hmem x (.inr (.inr ⟨i, hi, hx⟩)) (q.cells_ne hi h.next_lt hne hx)
  constructor
  · rw [hw]
    exact h.writer_lt
  · rw [hr]
    exact h.reader_lt
  · rw [outstanding, hw, hr]
    exact h.room
  · rw [hqueue]
    exact h.entries

/-- The producer's counter moves on: what its slot holds is put in. -/
theorem publish (h : q.Carries mem out into) (hroom : into.length < out.length + q.size)
    (hw : q.written mem' = advance q.size (q.written mem))
    (hmem : ∀ x, q.Owns x → x ≠ q.writer → mem' x = mem x) :
    q.Carries mem' out (into ++ [q.entry mem (q.next mem)]) := by
  have hlen := h.length
  have hr : q.consumed mem' = q.consumed mem :=
    congrArg q.value (hmem _ (.inr (.inl rfl)) q.writer_ne_reader.symm)
  have hfree : occupancy q.size (q.written mem) (q.consumed mem) < q.size := by
    rw [← outstanding]
    omega
  have hentry : ∀ i < q.size, q.entry mem' i = q.entry mem i := fun i hi => q.entry_congr fun x hx =>
    hmem x (.inr (.inr ⟨i, hi, hx⟩)) fun he => q.writer_not_mem hi (he ▸ hx)
  have hqueue : q.queue mem' = q.queue mem ++ [q.entry mem (q.next mem)] := by
    rw [queue, hw, hr, queue, next, ← contents_advance_left (q.entry mem) h.writer_lt h.reader_lt hfree]
    apply contents_congr
    intro i _
    exact hentry _ (Nat.mod_lt _ h.size_pos)
  constructor
  · rw [hw]
    exact advance_lt h.size_pos _
  · rw [hr]
    exact h.reader_lt
  · rw [outstanding, hw, hr, occupancy_advance_left h.writer_lt h.reader_lt (by omega)]
    omega
  · rw [hqueue, h.entries, List.append_assoc]

/-- The consumer's counter moves on: the oldest entry is taken out. -/
theorem take (h : q.Carries mem out into) (hsome : out.length < into.length)
    (hr : q.consumed mem' = advance q.size (q.consumed mem))
    (hmem : ∀ x, q.Owns x → x ≠ q.reader → mem' x = mem x) :
    q.Carries mem' (out ++ [q.entry mem (q.oldest mem)]) into := by
  have hlen := h.length
  have hw : q.written mem' = q.written mem :=
    congrArg q.value (hmem _ (.inl rfl) q.writer_ne_reader)
  have hne : occupancy q.size (q.written mem) (q.consumed mem) ≠ 0 := by
    rw [← outstanding]
    omega
  have hentry : ∀ i < q.size, q.entry mem' i = q.entry mem i := fun i hi => q.entry_congr fun x hx =>
    hmem x (.inr (.inr ⟨i, hi, hx⟩)) fun he => q.reader_not_mem hi (he ▸ hx)
  have hqueue : q.queue mem = q.entry mem (q.oldest mem) :: q.queue mem' := by
    rw [queue, contents_advance_right (q.entry mem) h.writer_lt h.reader_lt hne, queue, hw, hr, oldest]
    apply congrArg (q.entry mem (q.consumed mem % q.size) :: ·)
    symm
    apply contents_congr
    intro i _
    exact hentry _ (Nat.mod_lt _ h.size_pos)
  have hroom := h.room
  have hless := occupancy_advance_right h.writer_lt h.reader_lt hne
  constructor
  · rw [hw]
    exact h.writer_lt
  · rw [hr]
    exact advance_lt h.size_pos _
  · rw [outstanding] at hroom ⊢
    rw [hw, hr]
    omega
  · rw [h.entries, hqueue, List.append_assoc, List.singleton_append]

end Carries

end RingBuffer

end TtWind
