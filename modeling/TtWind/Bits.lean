import Mathlib.Data.Nat.Bitwise

/-!
# Bit fields of a number

A register image is a number read least significant bit first. `field` reads one field of
it; `packFields` lays fields out from the bottom, each above the ones before it.
-/

set_option autoImplicit false

namespace TtWind

/-- The `width` bits of a number from bit `pos` on. -/
def field (n pos width : Nat) : Nat := n / 2 ^ pos % 2 ^ width

/-- Fields given by width and value, the lowest first; a value is cut to its width. -/
def packFields : List (Nat × Nat) → Nat
  | [] => 0
  | (width, x) :: fs => x % 2 ^ width + packFields fs * 2 ^ width

/-- How many bits the fields take. -/
def fieldBits : List (Nat × Nat) → Nat
  | [] => 0
  | (width, _) :: fs => width + fieldBits fs

/-! ## Words -/

/-- To set the bits above a number is to add them. -/
theorem or_shiftLeft_eq_add {n x top : Nat} (h : n < 2 ^ top) : n ||| x <<< top = n + x * 2 ^ top := by
  rw [Nat.or_comm, ← Nat.shiftLeft_add_eq_or_of_lt h, Nat.shiftLeft_eq, Nat.add_comm]

/-- Two words, one above the other, bit by bit. -/
theorem testBit_append {lo top : Nat} (hi : Nat) (h : lo < 2 ^ top) (i : Nat) :
    (lo + hi * 2 ^ top).testBit i = if i < top then lo.testBit i else hi.testBit (i - top) := by
  rw [Nat.add_comm, Nat.mul_comm]
  exact Nat.testBit_two_pow_mul_add hi h i

/-- The bits of a field that was cut to its width and put at a position. -/
theorem testBit_field (x width pos i : Nat) :
    (x % 2 ^ width * 2 ^ pos).testBit i = (decide (pos ≤ i ∧ i < pos + width) && x.testBit (i - pos)) := by
  rw [← Nat.shiftLeft_eq, Nat.testBit_shiftLeft, Nat.testBit_mod_two_pow]
  by_cases hpos : pos ≤ i
  · have hwidth : i - pos < width ↔ i < pos + width := by omega
    simp [hpos, hwidth]
  · simp [hpos]

/-! ## Fields -/

/-- A number ends where the last field above it does. -/
theorem append_lt {n x top width : Nat} (hn : n < 2 ^ top) (hx : x < 2 ^ width) :
    n + x * 2 ^ top < 2 ^ (top + width) := by
  have hle : (x + 1) * 2 ^ top ≤ 2 ^ width * 2 ^ top := Nat.mul_le_mul_right _ hx
  rw [Nat.pow_add, Nat.mul_comm (2 ^ top)]
  rw [Nat.add_mul] at hle
  omega

theorem packFields_lt (fs : List (Nat × Nat)) : packFields fs < 2 ^ fieldBits fs := by
  induction fs with
  | nil => decide
  | cons f fs ih =>
    obtain ⟨width, x⟩ := f
    exact append_lt (Nat.mod_lt _ (Nat.two_pow_pos width)) ih

/-- The lowest field. -/
theorem field_packFields_head (width x : Nat) (fs : List (Nat × Nat)) :
    field (packFields ((width, x) :: fs)) 0 width = x % 2 ^ width := by
  rw [field, packFields, Nat.pow_zero, Nat.div_one, Nat.add_mul_mod_self_right, Nat.mod_mod]

/-- A field above the lowest one. -/
theorem field_packFields_tail {width x pos w : Nat} {fs : List (Nat × Nat)} (h : width ≤ pos) :
    field (packFields ((width, x) :: fs)) pos w = field (packFields fs) (pos - width) w := by
  have hpow : 2 ^ pos = 2 ^ width * 2 ^ (pos - width) := by
    rw [← Nat.pow_add, Nat.add_sub_cancel' h]
  have hx : x % 2 ^ width / 2 ^ width = 0 := Nat.div_eq_of_lt (Nat.mod_lt _ (Nat.two_pow_pos width))
  rw [field, field, packFields, hpow, ← Nat.div_div_eq_div_mul,
    Nat.add_mul_div_right _ _ (Nat.two_pow_pos width), hx, Nat.zero_add]

end TtWind
