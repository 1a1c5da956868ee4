import Endfields.Lib.CrcShift
import Endfields.Model.Crc

/-!
# The table CRC is the CRC of the polynomial

The byte table holds eight steps of every byte, the slices hold eight more each, and slicing-by-4
puts four of them together for a word. The steps are linear, so the parts of a word may be stepped
apart.

* `efCrc32Table_eq`, `efCrc32Slice_eq`, `crcWordStep_eq`: the tables and the word round as steps of
  the register.
* **The update** (`efCrc32UpdateSlice4_eq_feed`): slicing-by-4 over a byte string is the register
  fed bit by bit.
* **Main result** (`efCrc32UpdateSlice4_correct`): so it is, and an update over a concatenation is
  the updates over the parts in turn, wherever the cut is.
-/

namespace Endfields.Model

open Endfields.Lib

/-- The reflected polynomial of CRC-32. -/
def crc32Poly : ℕ := 0xEDB88320

/-- CRC-32 from its definition: the register of the polynomial, fed bit by bit. -/
def crc32Feed (crc : ℕ) (bs : List UInt8) : ℕ := crcFeed crc32Poly crc bs

/-- The polynomial fits 32 bits. -/
lemma crc32Poly_lt : crc32Poly < 2 ^ 32 := by decide

/-- Its top bit is set. -/
lemma crc32Poly_top : crc32Poly.testBit 31 = true := by decide

/-! ### Tables -/

/-- An entry of the table is its index, shifted by one byte. -/
lemma efCrc32Table_eq (i : ℕ) : efCrc32Table i = (crcShift crc32Poly)^[8] i := rfl

/-- Eight steps shift the upper bits down and look the low byte up. -/
lemma iterate_eight (x : ℕ) :
    (crcShift crc32Poly)^[8] x = (x >>> 8) ^^^ efCrc32Table (x &&& 0xFF) := by
  have hmod : x &&& 0xFF = x % 2 ^ 8 := Nat.and_two_pow_sub_one_eq_mod x 8
  rw [hmod, efCrc32Table_eq]
  conv_lhs => rw [← xor_shift_mod x 8]
  rw [iterate_crcShift_xor, iterate_crcShift_shiftLeft]

/-- A step of the slices shifts by one byte. -/
lemma crcSliceStep_eq (x : ℕ) : crcSliceStep x = (crcShift crc32Poly)^[8] x :=
  (iterate_eight x).symm

/-- An entry of slice `k` is its index, shifted by `k + 1` bytes. -/
lemma efCrc32Slice_eq (k i : ℕ) :
    efCrc32Slice k i = (crcShift crc32Poly)^[8 * (k + 1)] i := by
  have hstep : crcSliceStep = (crcShift crc32Poly)^[8] := funext crcSliceStep_eq
  unfold efCrc32Slice
  rw [hstep, efCrc32Table_eq, ← Function.iterate_mul, ← Function.iterate_add_apply, Nat.mul_add_one]

/-- The round for a byte of data. -/
lemma crcByteStep_eq (crc : ℕ) (b : UInt8) :
    (crc >>> 8) ^^^ efCrc32Table ((crc ^^^ b.toNat) &&& 0xFF) =
      (crcShift crc32Poly)^[8] (crc ^^^ b.toNat) := by
  have hb : b.toNat >>> 8 = 0 := by
    rw [Nat.shiftRight_eq_div_pow]
    exact Nat.div_eq_of_lt b.toNat_lt
  rw [iterate_eight, Nat.shiftRight_xor_distrib, hb, Nat.xor_zero]

/-- Thirty-two steps of a word are the steps of its bytes, each from its own place. -/
lemma crcWordStep_eq {x : ℕ} (hx : x < 2 ^ 32) : crcWordStep x = (crcShift crc32Poly)^[32] x := by
  have hbyte : ∀ y, y &&& 0xFF = y % 2 ^ 8 := fun y => Nat.and_two_pow_sub_one_eq_mod y 8
  have htop : (x >>> 24) % 2 ^ 8 = x >>> 24 := by
    apply Nat.mod_eq_of_lt
    rw [Nat.shiftRight_eq_div_pow, Nat.div_lt_iff_lt_mul (by decide)]
    exact hx
  -- one byte after the other is taken off the low end
  have h0 := xor_shift_mod x 8
  have h1 := xor_shift_mod (x >>> 8) 8
  have h2 := xor_shift_mod (x >>> 16) 8
  rw [← Nat.shiftRight_add] at h1 h2
  unfold crcWordStep
  rw [hbyte, hbyte, hbyte, hbyte, efCrc32Slice_eq, efCrc32Slice_eq, efCrc32Slice_eq,
    efCrc32Slice_eq, htop]
  have e0 : (crcShift crc32Poly)^[32] x = (crcShift crc32Poly)^[24] (x >>> 8) ^^^
      (crcShift crc32Poly)^[32] (x % 2 ^ 8) := by
    conv_lhs => rw [← h0]
    rw [iterate_crcShift_xor, Function.iterate_add_apply _ 24 8 (_ <<< 8),
      iterate_crcShift_shiftLeft]
  have e1 : (crcShift crc32Poly)^[24] (x >>> 8) = (crcShift crc32Poly)^[16] (x >>> 16) ^^^
      (crcShift crc32Poly)^[24] (x >>> 8 % 2 ^ 8) := by
    conv_lhs => rw [← h1]
    rw [iterate_crcShift_xor, Function.iterate_add_apply _ 16 8 (_ <<< 8),
      iterate_crcShift_shiftLeft]
  have e2 : (crcShift crc32Poly)^[16] (x >>> 16) = (crcShift crc32Poly)^[8] (x >>> 24) ^^^
      (crcShift crc32Poly)^[16] (x >>> 16 % 2 ^ 8) := by
    conv_lhs => rw [← h2]
    rw [iterate_crcShift_xor, Function.iterate_add_apply _ 8 8 (_ <<< 8),
      iterate_crcShift_shiftLeft]
  rw [e0, e1, e2]

/-! ### The update -/

/-- The bytes behind the last word are fed one by one.
Source: `ef_crc.c`, `ef_crc32_update_slice4` -/
lemma crcTail_eq (crc : ℕ) (bs : List UInt8) : crcTail crc bs = crc32Feed crc bs := by
  induction bs generalizing crc with
  | nil => rfl
  | cons b bs ih =>
      rw [crcTail, ih, crcByteStep_eq]
      exact (crcFeed_cons crc32Poly crc b bs).symm

/-- A fed register keeps its 32 bits. -/
lemma crc32Feed_lt {crc : ℕ} (hcrc : crc < 2 ^ 32) (bs : List UInt8) : crc32Feed crc bs < 2 ^ 32 := by
  unfold crc32Feed
  rw [crcFeed_eq]
  apply iterate_crcShift_lt crc32Poly_lt
  refine Nat.xor_lt_two_pow ?_ ?_
  · exact Nat.lt_of_lt_of_le hcrc (Nat.pow_le_pow_right (by decide) (Nat.le_add_right _ _))
  · exact Nat.lt_of_lt_of_le (leNat_lt bs) (Nat.pow_le_pow_right (by decide) (Nat.le_add_left _ _))

/-- The word that four bytes make. -/
lemma word_eq (b₀ b₁ b₂ b₃ : UInt8) :
    b₀.toNat + 256 * (b₁.toNat + 256 * (b₂.toNat + 256 * b₃.toNat)) = leNat [b₀, b₁, b₂, b₃] := by
  have h := fun b : UInt8 => b.toNat_lt
  unfold leNat leNat leNat leNat leNat
  rw [xor_shiftLeft_of_lt (h b₀), xor_shiftLeft_of_lt (h b₁), xor_shiftLeft_of_lt (h b₂),
    xor_shiftLeft_of_lt (h b₃)]
  rfl

/-- **The update.** -/
theorem efCrc32UpdateSlice4_eq_feed {crc : ℕ} (hcrc : crc < 2 ^ 32) (bs : List UInt8) :
    efCrc32UpdateSlice4 crc bs = crc32Feed crc bs := by
  induction crc, bs using efCrc32UpdateSlice4.induct with
  | case1 crc b₀ b₁ b₂ b₃ bs ih =>
      have hword : crc ^^^ leNat [b₀, b₁, b₂, b₃] < 2 ^ 32 := Nat.xor_lt_two_pow hcrc (leNat_lt _)
      have hround : crcWordStep (crc ^^^ leNat [b₀, b₁, b₂, b₃]) = crc32Feed crc [b₀, b₁, b₂, b₃] := by
        rw [crcWordStep_eq hword]
        exact (crcFeed_eq crc32Poly crc [b₀, b₁, b₂, b₃]).symm
      rw [efCrc32UpdateSlice4]
      rw [word_eq, hround] at ih ⊢
      rw [ih (crc32Feed_lt hcrc _)]
      exact (crcFeed_append crc32Poly crc [b₀, b₁, b₂, b₃] bs).symm
  | case2 crc bs hshort =>
      rw [efCrc32UpdateSlice4.eq_def]
      split
      · exact absurd rfl (hshort _ _ _ _ _)
      · exact crcTail_eq crc bs

/-- **The table CRC is the CRC of the polynomial**, and may be cut anywhere. -/
theorem efCrc32UpdateSlice4_correct {crc : ℕ} (hcrc : crc < 2 ^ 32) (bs : List UInt8) :
    efCrc32UpdateSlice4 crc bs = crc32Feed crc bs ∧
      ∀ pre post, bs = pre ++ post →
        efCrc32UpdateSlice4 crc bs = efCrc32UpdateSlice4 (efCrc32UpdateSlice4 crc pre) post := by
  refine ⟨efCrc32UpdateSlice4_eq_feed hcrc bs, ?_⟩
  rintro pre post rfl
  have hpre := efCrc32UpdateSlice4_eq_feed hcrc pre
  rw [hpre, efCrc32UpdateSlice4_eq_feed (crc32Feed_lt hcrc pre), efCrc32UpdateSlice4_eq_feed hcrc]
  exact crcFeed_append crc32Poly crc pre post

/-- The update over `1234`, in one piece and cut after its first byte. -/
theorem efCrc32UpdateSlice4_correct_1234 :
    efCrc32UpdateSlice4 0xFFFFFFFF [0x31, 0x32, 0x33, 0x34] =
        crc32Feed 0xFFFFFFFF [0x31, 0x32, 0x33, 0x34] ∧
      efCrc32UpdateSlice4 0xFFFFFFFF [0x31, 0x32, 0x33, 0x34] =
        efCrc32UpdateSlice4 (efCrc32UpdateSlice4 0xFFFFFFFF [0x31]) [0x32, 0x33, 0x34] := by
  obtain ⟨hfeed, hcut⟩ :=
    efCrc32UpdateSlice4_correct (show 0xFFFFFFFF < 2 ^ 32 by decide) [0x31, 0x32, 0x33, 0x34]
  exact ⟨hfeed, hcut [0x31] [0x32, 0x33, 0x34] rfl⟩

/-- The check value of CRC-32. -/
example : efCrc32UpdateSlice4 0xFFFFFFFF [0x31, 0x32, 0x33, 0x34, 0x35, 0x36, 0x37, 0x38, 0x39] ^^^
    0xFFFFFFFF = 0xCBF43926 := by decide +kernel

end Endfields.Model
