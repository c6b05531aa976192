import TtWind.Bits
import TtWind.Driver.Tlb

/-!
# The register image of a window

The 96 bits that `packTlb2M` builds with word operations are the fields of the documented
layout, lowest first, and reading them back by that layout gives the configuration.
-/

set_option autoImplicit false

namespace TtWind

/-- The register image held as `lo` (bits 0..63) and `hi` (bits 64..95). -/
def image (img : UInt64 × UInt32) : Nat := img.1.toNat + img.2.toNat * 2 ^ 64

/-- The layout of a 2 MiB window's register: the address in blocks of 2 MiB, the corners of
the destination, then the attributes. -/
def tlb2mFields (cfg : NocTlbConfig) : List (Nat × UInt64) :=
  [(43, cfg.addr >>> tlb2mShift), (6, cfg.xEnd.toUInt64), (6, cfg.yEnd.toUInt64),
    (6, cfg.xStart.toUInt64), (6, cfg.yStart.toUInt64), (2, cfg.noc.toUInt64),
    (1, cfg.mcast.toUInt64), (2, cfg.ordering.toUInt64), (1, cfg.linked.toUInt64),
    (1, cfg.staticVc.toUInt64)]

/-- Put fields one above the other, from a position on. -/
def putFields (img : UInt64 × UInt32) (pos : Nat) : List (Nat × UInt64) → UInt64 × UInt32
  | [] => img
  | (width, value) :: fs => putFields (putField img.1 img.2 pos width value) (pos + width) fs

/-- A register image read by the layout. -/
def unpackTlb2M (n : Nat) : NocTlbConfig where
  addr := UInt64.ofNat (field n 0 43) <<< tlb2mShift
  xEnd := UInt16.ofNat (field n 43 6)
  yEnd := UInt16.ofNat (field n 49 6)
  xStart := UInt16.ofNat (field n 55 6)
  yStart := UInt16.ofNat (field n 61 6)
  noc := UInt8.ofNat (field n 67 2)
  mcast := UInt8.ofNat (field n 69 1)
  ordering := UInt8.ofNat (field n 70 2)
  linked := UInt8.ofNat (field n 72 1)
  staticVc := UInt8.ofNat (field n 73 1)

/-! ## Packing -/

theorem shiftLeft_toNat (v : UInt64) {n : Nat} (h : n < 64) :
    (v <<< UInt64.ofNat n).toNat = v.toNat * 2 ^ n % 2 ^ 64 := by
  have hn : (UInt64.ofNat n).toNat % 64 = n := by
    rw [UInt64.toNat_ofNat']
    omega
  rw [UInt64.toNat_shiftLeft, hn, Nat.shiftLeft_eq]

theorem shiftRight_toNat (v : UInt64) {n : Nat} (h : n < 64) :
    (v >>> UInt64.ofNat n).toNat = v.toNat / 2 ^ n := by
  have hn : (UInt64.ofNat n).toNat % 64 = n := by
    rw [UInt64.toNat_ofNat']
    omega
  rw [UInt64.toNat_shiftRight, hn, Nat.shiftRight_eq_div_pow]

theorem masked_toNat {width : Nat} (hw : width < 64) (value : UInt64) :
    (value &&& ((1 <<< UInt64.ofNat width) - 1)).toNat = value.toNat % 2 ^ width := by
  have hpow : 2 ^ width < 2 ^ 64 := Nat.pow_lt_pow_right (by decide) hw
  have hshift : ((1 : UInt64) <<< UInt64.ofNat width).toNat = 2 ^ width := by
    rw [shiftLeft_toNat 1 hw, UInt64.toNat_one, Nat.one_mul, Nat.mod_eq_of_lt hpow]
  have hone : (1 : UInt64) ≤ 1 <<< UInt64.ofNat width := by
    rw [UInt64.le_iff_toNat_le, hshift]
    exact Nat.one_le_two_pow
  rw [UInt64.toNat_and, UInt64.toNat_sub_of_le _ _ hone, hshift, UInt64.toNat_one,
    Nat.and_two_pow_sub_one_eq_mod]

/-- The value cut to the field's width, bit by bit. -/
theorem masked_testBit (width : Nat) (value : UInt64) (i : Nat) :
    (value &&& (if 64 ≤ width then 0xFFFFFFFFFFFFFFFF
      else (1 <<< UInt64.ofNat width) - 1 : UInt64)).toNat.testBit i =
      (decide (i < width) && value.toNat.testBit i) := by
  by_cases hw : 64 ≤ width
  · have hmax : (0xFFFFFFFFFFFFFFFF : UInt64).toNat = 2 ^ 64 - 1 := rfl
    rw [if_pos hw, UInt64.toNat_and, hmax, Nat.and_two_pow_sub_one_eq_mod,
      Nat.mod_eq_of_lt value.toNat_lt]
    by_cases hi : i < width
    · simp [hi]
    · have hlt : value.toNat < 2 ^ i :=
        Nat.lt_of_lt_of_le value.toNat_lt (Nat.pow_le_pow_right (by decide) (by omega))
      simp [hi, Nat.testBit_lt_two_pow hlt]
  · rw [if_neg hw, masked_toNat (by omega), Nat.testBit_mod_two_pow]

theorem shiftLeft_testBit (v : UInt64) {n : Nat} (h : n < 64) (i : Nat) :
    (v <<< UInt64.ofNat n).toNat.testBit i =
      (decide (i < 64) && (decide (n ≤ i) && v.toNat.testBit (i - n))) := by
  rw [shiftLeft_toNat v h, Nat.testBit_mod_two_pow, ← Nat.shiftLeft_eq, Nat.testBit_shiftLeft]

theorem shiftRight_testBit (v : UInt64) {n : Nat} (h : n < 64) (i : Nat) :
    (v >>> UInt64.ofNat n).toNat.testBit i = v.toNat.testBit (n + i) := by
  rw [shiftRight_toNat v h, Nat.testBit_div_two_pow, Nat.add_comm]

/-- What a word of 32 bits keeps of one of 64. -/
theorem toUInt32_testBit (v : UInt64) (i : Nat) :
    v.toUInt32.toNat.testBit i = (decide (i < 32) && v.toNat.testBit i) := by
  rw [UInt64.toNat_toUInt32, Nat.testBit_mod_two_pow]

/-- A field is OR-ed into the image at its position. -/
theorem putField_or (lo : UInt64) (hi : UInt32) {pos width : Nat} (value : UInt64)
    (hw : width ≤ 64) (hfit : pos + width ≤ 96) :
    image (putField lo hi pos width value) = image (lo, hi) ||| value.toNat % 2 ^ width * 2 ^ pos := by
  apply Nat.eq_of_testBit_eq
  intro i
  rw [Nat.testBit_or, testBit_field, image, image, testBit_append _ (UInt64.toNat_lt _),
    testBit_append _ (UInt64.toNat_lt _)]
  unfold putField
  by_cases hpos : pos < 64
  · rw [if_pos hpos]
    by_cases hlow : i < 64
    · -- the low word takes the field's bits below 64
      rw [if_pos hlow, if_pos hlow, UInt64.toNat_or, Nat.testBit_or, shiftLeft_testBit _ hpos,
        masked_testBit]
      by_cases hle : pos ≤ i
      · have hbound : i - pos < width ↔ i < pos + width := by omega
        simp [hlow, hle, hbound]
      · simp [hle]
    · rw [if_neg hlow, if_neg hlow]
      by_cases hover : 64 < pos + width
      · -- the rest of a field that straddles the words
        have hsub : 64 - pos + (i - 64) = i - pos := by omega
        have hbound : i - pos < width ↔ i < pos + width := by omega
        have hle : pos ≤ i := by omega
        have hword : i < pos + width → i - 64 < 32 := by omega
        rw [if_pos hover, UInt32.toNat_or, Nat.testBit_or, toUInt32_testBit,
          shiftRight_testBit _ (by omega), masked_testBit, hsub]
        by_cases hi : i < pos + width
        · simp [hle, hbound, hi, hword hi]
        · simp [hbound, hi]
      · have hend : ¬ i < pos + width := by omega
        rw [if_neg hover]
        simp [hend]
  · rw [if_neg hpos]
    by_cases hlow : i < 64
    · have hbelow : ¬ pos ≤ i := by omega
      simp [hlow, hbelow]
    · rw [if_neg hlow, if_neg hlow, UInt32.toNat_or, Nat.testBit_or, toUInt32_testBit,
        shiftLeft_testBit _ (by omega), masked_testBit]
      have hsub : i - 64 - (pos - 64) = i - pos := by omega
      have hpos' : pos - 64 ≤ i - 64 ↔ pos ≤ i := by omega
      by_cases hi : pos ≤ i ∧ i < pos + width
      · have hword : i - 64 < 32 := by omega
        have hword' : i - 64 < 64 := by omega
        have hbound : i - pos < width := by omega
        simp [hi, hword, hword', hsub, hpos', hbound]
      · have hout : ¬ (pos ≤ i ∧ i - pos < width) := by omega
        simp only [hi, hsub, hpos', decide_false, Bool.false_and, Bool.or_false]
        by_cases hle : pos ≤ i
        · have hbound : ¬ i - pos < width := fun h => hout ⟨hle, h⟩
          simp [hbound]
        · simp [hle]

/-- Outside its field the image keeps its bits. -/
theorem putField_outside (lo : UInt64) (hi : UInt32) {pos width : Nat} (value : UInt64)
    (hw : width ≤ 64) (hfit : pos + width ≤ 96) {i : Nat} (hout : i < pos ∨ pos + width ≤ i) :
    (image (putField lo hi pos width value)).testBit i = (image (lo, hi)).testBit i := by
  have hfield : ¬ (pos ≤ i ∧ i < pos + width) := by omega
  rw [putField_or lo hi value hw hfit, Nat.testBit_or, testBit_field, decide_eq_false hfield,
    Bool.false_and, Bool.or_false]

/-! ### Defined shifts -/

theorem shiftLeft64_of_lt (v : UInt64) {n : Nat} (h : n < 64) :
    shiftLeft64 v n = some (v <<< UInt64.ofNat n) := if_pos h

theorem shiftRight64_of_lt (v : UInt64) {n : Nat} (h : n < 64) :
    shiftRight64 v n = some (v >>> UInt64.ofNat n) := if_pos h

/-- No shift count reaches the width of its operand. -/
theorem putFieldDefined_eq (lo : UInt64) (hi : UInt32) {pos width : Nat} (value : UInt64)
    (hw : width ≤ 64) (hfit : pos + width ≤ 96) :
    putFieldDefined lo hi pos width value = some (putField lo hi pos width value) := by
  have hmask (h : ¬ 64 ≤ width) : shiftLeft64 1 width = some (1 <<< UInt64.ofNat width) :=
    shiftLeft64_of_lt 1 (by omega)
  unfold putFieldDefined putField
  by_cases hpos : pos < 64
  · by_cases hover : 64 < pos + width
    · -- a field that straddles the words starts above bit 0
      have hdown : 64 - pos < 64 := by omega
      by_cases hwide : 64 ≤ width
      · simp [hwide, hpos, hover, shiftLeft64_of_lt _ hpos, shiftRight64_of_lt _ hdown]
      · simp [hwide, hmask, hpos, hover, shiftLeft64_of_lt _ hpos, shiftRight64_of_lt _ hdown]
    · by_cases hwide : 64 ≤ width
      · simp [hwide, hpos, hover, shiftLeft64_of_lt _ hpos]
      · simp [hwide, hmask, hpos, hover, shiftLeft64_of_lt _ hpos]
  · have hup : pos - 64 < 64 := by omega
    have hwide : ¬ 64 ≤ width := by omega
    simp [hwide, hmask, hpos, shiftLeft64_of_lt _ hup]

/-- The field packer is an exact OR on 96 bits, and none of its shifts is undefined. -/
theorem put_field_exact (lo : UInt64) (hi : UInt32) (pos width : Nat) (value : UInt64)
    (hw : 1 ≤ width ∧ width ≤ 64) (hfit : pos + width ≤ 96) :
    image (putField lo hi pos width value) =
        image (lo, hi) ||| value.toNat % 2 ^ width * 2 ^ pos ∧
      (∀ i, i < pos ∨ pos + width ≤ i →
        (image (putField lo hi pos width value)).testBit i = (image (lo, hi)).testBit i) ∧
      putFieldDefined lo hi pos width value = some (putField lo hi pos width value) := by
  refine ⟨putField_or lo hi value hw.2 hfit, ?_, putFieldDefined_eq lo hi value hw.2 hfit⟩
  intro i hout
  exact putField_outside lo hi value hw.2 hfit hout

/-- Six bits across bit 64 of an image that has bits set on both sides. -/
theorem put_field_exact_straddling :
    image (putField 0x8000000000000001 0x80000001 61 6 0x3F) =
        image (0x8000000000000001, 0x80000001) ||| 0x3F * 2 ^ 61 ∧
      putFieldDefined 0x8000000000000001 0x80000001 61 6 0x3F =
        some (0xE000000000000001, 0x80000007) := by
  obtain ⟨hor, -, hdefined⟩ :=
    put_field_exact 0x8000000000000001 0x80000001 61 6 0x3F (by decide) (by decide)
  exact ⟨hor, hdefined⟩

/-- A field put above all that was put before it. -/
theorem putField_image {lo : UInt64} {hi : UInt32} {pos width : Nat} (value : UInt64)
    (himg : image (lo, hi) < 2 ^ pos) (hw : width < 64) (hfit : pos + width ≤ 96) :
    image (putField lo hi pos width value) = image (lo, hi) + value.toNat % 2 ^ width * 2 ^ pos := by
  rw [putField_or lo hi value (Nat.le_of_lt hw) hfit, ← Nat.shiftLeft_eq,
    or_shiftLeft_eq_add himg, Nat.shiftLeft_eq]

/-- Fields put above an image are laid out above it. -/
theorem putFields_image {img : UInt64 × UInt32} {pos : Nat} (fs : List (Nat × UInt64))
    (himg : image img < 2 ^ pos) (hw : ∀ f ∈ fs, f.1 < 64)
    (hfit : pos + fieldBits (fs.map fun f => (f.1, f.2.toNat)) ≤ 96) :
    image (putFields img pos fs) =
      image img + packFields (fs.map fun f => (f.1, f.2.toNat)) * 2 ^ pos := by
  induction fs generalizing img pos with
  | nil => simp [putFields, packFields]
  | cons f fs ih =>
    obtain ⟨width, value⟩ := f
    simp only [List.map_cons, fieldBits] at hfit
    have hput : image (putField img.1 img.2 pos width value) = _ :=
      putField_image value himg (hw _ List.mem_cons_self) (Nat.le_trans (by omega) hfit)
    have hnext : image (putField img.1 img.2 pos width value) < 2 ^ (pos + width) := by
      rw [hput]
      exact append_lt himg (Nat.mod_lt _ (Nat.two_pow_pos width))
    have hrest := ih hnext (fun f hf => hw f (List.mem_cons_of_mem _ hf)) (by omega)
    rw [putFields, hrest, hput, List.map_cons, packFields, Nat.add_mul, Nat.pow_add, Nat.add_assoc,
      Nat.mul_assoc, Nat.mul_comm (2 ^ pos)]

/-- The packed image is laid out as documented, with nothing above its fields. -/
theorem packTlb2M_image (cfg : NocTlbConfig) :
    image (packTlb2M cfg) = packFields ((tlb2mFields cfg).map fun f => (f.1, f.2.toNat)) := by
  have hput : packTlb2M cfg = putFields (0, 0) 0 (tlb2mFields cfg) := rfl
  have hwidths : ∀ f ∈ tlb2mFields cfg, f.1 < 64 := by simp [tlb2mFields]
  have hzero : image (0, 0) < 2 ^ 0 := by decide
  rw [hput, putFields_image _ hzero hwidths (by simp [tlb2mFields, fieldBits]), Nat.pow_zero,
    Nat.mul_one]
  exact Nat.zero_add _

/-- An image has no bits above its fields: the stream header and the static channel are 0. -/
theorem packTlb2M_lt (cfg : NocTlbConfig) : image (packTlb2M cfg) < 2 ^ 74 := by
  rw [packTlb2M_image]
  exact packFields_lt _

/-! ## Reading back -/

/-- An aligned address fits its field. -/
theorem aligned_addr {a : UInt64} (h : a &&& (tlb2mSize - 1) = 0) :
    UInt64.ofNat ((a >>> tlb2mShift).toNat % 2 ^ 43) <<< tlb2mShift = a := by
  have hmod : a.toNat % 2 ^ 21 = 0 := by
    have hand := congrArg UInt64.toNat h
    rwa [UInt64.toNat_and, show (tlb2mSize - 1).toNat = 2 ^ 21 - 1 from rfl,
      Nat.and_two_pow_sub_one_eq_mod] at hand
  have hshift : tlb2mShift.toNat % 64 = 21 := rfl
  have ha := a.toNat_lt
  apply UInt64.toNat_inj.mp
  rw [UInt64.toNat_shiftLeft, UInt64.toNat_shiftRight, hshift, Nat.shiftRight_eq_div_pow,
    UInt64.toNat_ofNat', Nat.shiftLeft_eq]
  omega

/-- The image of a valid configuration reads back as that configuration. -/
theorem unpack_pack {cfg : NocTlbConfig} (hr : cfg.inRange = true)
    (ha : cfg.addr &&& (tlb2mSize - 1) = 0) : unpackTlb2M (image (packTlb2M cfg)) = cfg := by
  obtain ⟨addr, xEnd, yEnd, xStart, yStart, noc, mcast, ordering, linked, staticVc⟩ := cfg
  simp only [NocTlbConfig.inRange, Bool.and_eq_true, decide_eq_true_eq, UInt16.le_iff_toNat_le,
    UInt8.le_iff_toNat_le] at hr
  obtain ⟨⟨⟨⟨⟨⟨⟨⟨hxe, hye⟩, hxs⟩, hys⟩, hnoc⟩, hmc⟩, hord⟩, hlk⟩, hvc⟩ := hr
  have hfit16 : ∀ {v : UInt16} {b : Nat}, v.toNat < 2 ^ b → UInt16.ofNat (v.toNat % 2 ^ b) = v :=
    fun h => by rw [Nat.mod_eq_of_lt h, UInt16.ofNat_toNat]
  have hfit8 : ∀ {v : UInt8} {b : Nat}, v.toNat < 2 ^ b → UInt8.ofNat (v.toNat % 2 ^ b) = v :=
    fun h => by rw [Nat.mod_eq_of_lt h, UInt8.ofNat_toNat]
  rw [packTlb2M_image, tlb2mFields, unpackTlb2M]
  simp (disch := decide) only [List.map_cons, field_packFields_tail, Nat.reduceSub,
    field_packFields_head, UInt16.toNat_toUInt64, UInt8.toNat_toUInt64]
  rw [aligned_addr ha, hfit16 (Nat.lt_of_le_of_lt hxe (by decide)), hfit16 (Nat.lt_of_le_of_lt hye (by decide)),
    hfit16 (Nat.lt_of_le_of_lt hxs (by decide)), hfit16 (Nat.lt_of_le_of_lt hys (by decide)),
    hfit8 (Nat.lt_of_le_of_lt hnoc (by decide)), hfit8 (Nat.lt_of_le_of_lt hmc (by decide)),
    hfit8 (Nat.lt_of_le_of_lt hord (by decide)), hfit8 (Nat.lt_of_le_of_lt hlk (by decide)),
    hfit8 (Nat.lt_of_le_of_lt hvc (by decide))]

end TtWind
