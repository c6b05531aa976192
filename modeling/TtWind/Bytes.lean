import Mathlib.Algebra.Group.Nat.Defs
import Mathlib.Logic.Function.Basic

/-!
# Little-endian fields of a byte buffer

A buffer is a function from offsets to bytes. `leNat` reads a field, `leStore`
writes one.
-/

set_option autoImplicit false

namespace TtWind

/-- `len` bytes of a buffer from `off`, as a little-endian number. -/
def leNat (b : Nat → UInt8) (off : Nat) : Nat → Nat
  | 0 => 0
  | len + 1 => (b off).toNat + 256 * leNat b (off + 1) len

/-- A buffer with `len` bytes from `off` replaced by a number's little-endian bytes. -/
def leStore (b : Nat → UInt8) (off len v : Nat) : Nat → UInt8 := fun i =>
  if off ≤ i ∧ i < off + len then UInt8.ofNat (v / 256 ^ (i - off)) else b i

/-- A field depends on its own bytes only. -/
theorem leNat_congr {b b' : Nat → UInt8} {off len : Nat}
    (h : ∀ i, off ≤ i → i < off + len → b i = b' i) : leNat b off len = leNat b' off len := by
  induction len generalizing off with
  | zero => rfl
  | succ len ih =>
    have hhead : b off = b' off := h off (Nat.le_refl _) (by omega)
    have htail : leNat b (off + 1) len = leNat b' (off + 1) len :=
      ih fun i hlo hhi => h i (by omega) (by omega)
    simp only [leNat, hhead, htail]

theorem leNat_lt (b : Nat → UInt8) (off len : Nat) : leNat b off len < 256 ^ len := by
  induction len generalizing off with
  | zero => simp [leNat]
  | succ len ih =>
    have hbyte := (b off).toNat_lt
    have htail := ih (off + 1)
    rw [leNat, Nat.pow_succ']
    omega

/-- A field is its first bytes and the rest above them. -/
theorem leNat_add (b : Nat → UInt8) (off m n : Nat) :
    leNat b off (m + n) = leNat b off m + 256 ^ m * leNat b (off + m) n := by
  induction m generalizing off with
  | zero => simp [leNat]
  | succ m ih =>
    have hidx : off + (m + 1) = off + 1 + m := by omega
    rw [Nat.add_right_comm, leNat, leNat, ih, hidx, Nat.pow_succ', Nat.mul_add, Nat.mul_assoc,
      ← Nat.add_assoc]

theorem leNat_eq_zero {b : Nat → UInt8} {off len : Nat}
    (h : ∀ i, off ≤ i → i < off + len → b i = 0) : leNat b off len = 0 := by
  induction len generalizing off with
  | zero => rfl
  | succ len ih =>
    have hhead : b off = 0 := h off (Nat.le_refl _) (by omega)
    have htail : leNat b (off + 1) len = 0 := ih fun i hlo hhi => h i (by omega) (by omega)
    rw [leNat, hhead, htail]
    rfl

theorem leStore_of_not_mem {b : Nat → UInt8} {off len v i : Nat} (h : ¬ (off ≤ i ∧ i < off + len)) :
    leStore b off len v i = b i := if_neg h

/-- Reading a field back gives what was stored, as far as it fits. -/
theorem leNat_leStore (b : Nat → UInt8) (off len v : Nat) :
    leNat (leStore b off len v) off len = v % 256 ^ len := by
  induction len generalizing b off v with
  | zero => simp [leNat, Nat.mod_one]
  | succ len ih =>
    have hhead : leStore b off (len + 1) v off = UInt8.ofNat v := by simp [leStore]
    have htail : leNat (leStore b off (len + 1) v) (off + 1) len =
        leNat (leStore b (off + 1) len (v / 256)) (off + 1) len := by
      refine leNat_congr fun i hlo hhi => ?_
      have hpow : v / 256 ^ (i - off) = v / 256 / 256 ^ (i - (off + 1)) := by
        have hexp : i - off = i - (off + 1) + 1 := by omega
        rw [hexp, Nat.pow_succ', Nat.div_div_eq_div_mul]
      rw [leStore, leStore, if_pos (by omega), if_pos (by omega), hpow]
    have hbyte : (UInt8.ofNat v).toNat = v % 256 := UInt8.toNat_ofNat'
    rw [leNat, hhead, htail, ih, hbyte, Nat.pow_succ', Nat.mod_mul]

/-- A store beside a field leaves it. -/
theorem leNat_leStore_of_disjoint {b : Nat → UInt8} {off len off' len' v : Nat}
    (h : off' + len' ≤ off ∨ off + len ≤ off') :
    leNat (leStore b off len v) off' len' = leNat b off' len' :=
  leNat_congr fun i hlo hhi => leStore_of_not_mem (by omega)

/-- An eight-byte field holds a 64-bit word. -/
theorem ofNat_leNat_leStore (b : Nat → UInt8) (off : Nat) (v : UInt64) :
    UInt64.ofNat (leNat (leStore b off 8 v.toNat) off 8) = v := by
  have hfits : v.toNat < 256 ^ 8 := v.toNat_lt
  rw [leNat_leStore, Nat.mod_eq_of_lt hfits, UInt64.ofNat_toNat]

/-! ## Registers stored one after another -/

/-- The buffer after storing each word at its offset, in order. -/
def storeAll (b : Nat → UInt8) : List (Nat × UInt32) → Nat → UInt8
  | [] => b
  | e :: es => storeAll (leStore b e.1 4 e.2.toNat) es

theorem storeAll_append (b : Nat → UInt8) (es es' : List (Nat × UInt32)) :
    storeAll b (es ++ es') = storeAll (storeAll b es) es' := by
  induction es generalizing b with
  | nil => rfl
  | cons e es ih => exact ih _

/-- Bytes that no register takes stay. -/
theorem storeAll_of_not_mem {b : Nat → UInt8} {es : List (Nat × UInt32)} {i : Nat}
    (h : ∀ e ∈ es, ¬ (e.1 ≤ i ∧ i < e.1 + 4)) : storeAll b es i = b i := by
  induction es generalizing b with
  | nil => rfl
  | cons e es ih =>
    unfold storeAll
    rw [ih fun e' he' => h e' (List.mem_cons_of_mem _ he'),
      leStore_of_not_mem (h e List.mem_cons_self)]

/-- A field apart from all the words stored stays. -/
theorem leNat_storeAll_of_disjoint {b : Nat → UInt8} {es : List (Nat × UInt32)} {off len : Nat}
    (h : ∀ e ∈ es, off + len ≤ e.1 ∨ e.1 + 4 ≤ off) :
    leNat (storeAll b es) off len = leNat b off len := by
  induction es generalizing b with
  | nil => rfl
  | cons e es ih =>
    have hrest := ih (b := leStore b e.1 4 e.2.toNat) fun e' he' => h e' (List.mem_cons_of_mem _ he')
    rw [storeAll, hrest]
    exact leNat_leStore_of_disjoint (h e List.mem_cons_self)

/-- Words stored apart from each other are all read back. -/
theorem leNat_storeAll {b : Nat → UInt8} {es : List (Nat × UInt32)}
    (hapart : es.Pairwise fun e e' => e.1 + 4 ≤ e'.1 ∨ e'.1 + 4 ≤ e.1) {e : Nat × UInt32}
    (he : e ∈ es) : leNat (storeAll b es) e.1 4 = e.2.toNat := by
  induction es generalizing b with
  | nil => cases he
  | cons e' es ih =>
    obtain ⟨hhead, htail⟩ := List.pairwise_cons.mp hapart
    rw [storeAll]
    rcases List.mem_cons.mp he with rfl | he
    · have hfits : e.2.toNat % 256 ^ 4 = e.2.toNat := Nat.mod_eq_of_lt e.2.toNat_lt
      rw [leNat_storeAll_of_disjoint hhead, leNat_leStore, hfits]
    · exact ih htail he

/-- A number's `len` little-endian bytes. -/
def leBytes (v : Nat) : Nat → List UInt8
  | 0 => []
  | len + 1 => UInt8.ofNat v :: leBytes (v / 256) len

@[simp] theorem leBytes_length (v len : Nat) : (leBytes v len).length = len := by
  induction len generalizing v with
  | zero => rfl
  | succ len ih => simp only [leBytes, List.length_cons, ih]

end TtWind
