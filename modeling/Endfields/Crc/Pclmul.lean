import Endfields.Crc.Table
import Endfields.Model.Pclmul

/-!
# The fast CRC is the CRC of the polynomial

Every part of the fast path keeps the residue of what it replaces: a register that is folded stands
for the CRC of the bytes so far, up to 128 steps.

* **Folding** (`folded`): the two products of a round take 128 steps.
* **Reduction** (`reduction12864_eq`): a register is reduced to the word that 128 steps make of it.
  The quotient of the Barrett reduction comes from the inverse of the polynomial modulo `2 ^ 32`
  (`barrett_low`).
* **The body** (`efCrc32PclmulBody_eq`): for a chunk of any length.
* **Main result** (`efCrc32UpdatePclmul_eq_slice4`): the fast update is slicing-by-4, for every
  start value and every byte string.
-/

namespace Endfields.Model

open Endfields.Lib

variable {crc F K x r : ℕ} {data : List UInt8}

/-! ### The constants -/

/-- The constants are powers of the variable. -/
lemma rk_cong :
    CrcCong crc32Poly efCrc32EtherPclmul.rk1 ((crcShift crc32Poly)^[64] 1) ∧
      CrcCong crc32Poly efCrc32EtherPclmul.rk2 ((crcShift crc32Poly)^[128] 1) ∧
      CrcCong crc32Poly efCrc32EtherPclmul.rk5 ((crcShift crc32Poly)^[64] 1) ∧
      CrcCong crc32Poly efCrc32EtherPclmul.rk6 ((crcShift crc32Poly)^[32] 1) ∧
      CrcCong crc32Poly efCrc32EtherPclmul.rk8 0 := by
  refine ⟨⟨1, ?_⟩, ⟨1, ?_⟩, ⟨1, ?_⟩, ⟨1, ?_⟩, ⟨1, ?_⟩⟩ <;> decide +kernel

/-- They are words of 33 bits at most. -/
lemma rk_lt : efCrc32EtherPclmul.rk1 < 2 ^ 32 ∧ efCrc32EtherPclmul.rk2 < 2 ^ 33 ∧
    efCrc32EtherPclmul.rk5 < 2 ^ 32 ∧ efCrc32EtherPclmul.rk6 < 2 ^ 33 ∧
    efCrc32EtherPclmul.rk7 < 2 ^ 33 ∧ efCrc32EtherPclmul.rk8 < 2 ^ 33 := by decide

/-- The halves of a pair.
Source: `ef_crc_pclmul.c`, `ef_crc32_folding_round` -/
lemma qword_mmPair {lo hi : ℕ} (hlo : lo < 2 ^ 64) (hhi : hi < 2 ^ 64) :
    qword (mmPair lo hi) 0 = lo ∧ qword (mmPair lo hi) 1 = hi := by
  unfold qword mmPair
  rw [xor_shiftLeft_of_lt hlo, Nat.shiftRight_eq_div_pow, Nat.shiftRight_eq_div_pow]
  omega

/-- The low half is the remainder. -/
lemma qword_zero (x : ℕ) : qword x 0 = x % 2 ^ 64 := rfl

/-- The high half is the quotient. -/
lemma qword_one (hx : x < 2 ^ 128) : qword x 1 = x >>> 64 := by
  unfold qword
  rw [Nat.shiftRight_eq_div_pow]
  omega

/-- The words of a constant register, as the products choose them. -/
lemma mmClmulepi64_mmPair {lo hi : ℕ} (hlo : lo < 2 ^ 33) (hhi : hi < 2 ^ 33) (a : ℕ) :
    mmClmulepi64 a (mmPair lo hi) 0x00 = clmul 64 (qword a 0) lo ∧
      mmClmulepi64 a (mmPair lo hi) 0x01 = clmul 64 (qword a 1) lo ∧
      mmClmulepi64 a (mmPair lo hi) 0x10 = clmul 64 (qword a 0) hi := by
  have hlarge : 2 ^ 33 ≤ 2 ^ 64 := Nat.pow_le_pow_right (by decide) (by decide)
  obtain ⟨h0, h1⟩ := qword_mmPair (hlo.trans_le hlarge) (hhi.trans_le hlarge)
  refine ⟨?_, ?_, ?_⟩
  · exact congrArg (clmul 64 (qword a 0)) h0
  · exact congrArg (clmul 64 (qword a 1)) h0
  · exact congrArg (clmul 64 (qword a 0)) h1

/-! ### Folding -/

/-- The sum of the two products of a round. -/
def folded (F : ℕ) : ℕ :=
  clmul 64 (qword F 0) efCrc32EtherPclmul.rk2 ^^^ clmul 64 (qword F 1) efCrc32EtherPclmul.rk1

/-- A folded block fits 128 bits. -/
lemma folded_lt (F : ℕ) : folded F < 2 ^ 128 := by
  obtain ⟨h1, h2, -⟩ := rk_lt
  have hlo : clmul 64 (qword F 0) efCrc32EtherPclmul.rk2 < 2 ^ (64 + 32) := clmul_lt 64 _ h2
  have hhi : clmul 64 (qword F 1) efCrc32EtherPclmul.rk1 < 2 ^ (64 + 31) := clmul_lt 64 _ h1
  refine Nat.xor_lt_two_pow (hlo.trans_le ?_) (hhi.trans_le ?_)
  · exact Nat.pow_le_pow_right (by decide) (by decide)
  · exact Nat.pow_le_pow_right (by decide) (by decide)

/-- **Folding** takes 128 steps. -/
lemma folded_cong (hF : F < 2 ^ 128) :
    CrcCong crc32Poly (folded F) ((crcShift crc32Poly)^[128] F) := by
  obtain ⟨hr1, hr2, -⟩ := rk_cong
  have hlo : qword F 0 < 2 ^ 64 := Nat.mod_lt _ (Nat.two_pow_pos 64)
  have hhi : qword F 1 < 2 ^ 64 := Nat.mod_lt _ (Nat.two_pow_pos 64)
  have hsplit : F = (qword F 1) <<< 64 ^^^ qword F 0 := by
    rw [qword_zero, qword_one hF, xor_shift_mod]
  have hsteps : (crcShift crc32Poly)^[128] F =
      (crcShift crc32Poly)^[128] (qword F 0) ^^^ (crcShift crc32Poly)^[64] (qword F 1) := by
    conv_lhs => rw [hsplit]
    rw [iterate_crcShift_xor, Nat.xor_comm, Function.iterate_add_apply _ 64 64 (_ <<< 64),
      iterate_crcShift_shiftLeft]
  rw [hsteps]
  exact (crcCong_clmul hr2 hlo).xor (crcCong_clmul hr1 hhi)

/-- One round is the fold and the next block.
Source: `ef_crc_pclmul.c`, `ef_crc32_folding_round` -/
lemma efCrc32FoldingRound_eq (D F : ℕ) :
    efCrc32FoldingRound D (mmPair efCrc32EtherPclmul.rk1 efCrc32EtherPclmul.rk2) F =
        folded F ^^^ D := by
  obtain ⟨h1, h2, -⟩ := rk_lt
  have hle : 2 ^ 32 ≤ 2 ^ 33 := Nat.pow_le_pow_right (by decide) (by decide)
  obtain ⟨-, hhi, hlo⟩ := mmClmulepi64_mmPair (h1.trans_le hle) h2 F
  unfold efCrc32FoldingRound folded
  simp only [hhi, hlo]
  rw [Nat.xor_assoc, Nat.xor_comm D]

/-! ### Reduction -/

/-- The low word of a register, and the others. -/
lemma steps_of_split (k : ℕ) (x : ℕ) :
    (crcShift crc32Poly)^[k] x = (x >>> k) ^^^ (crcShift crc32Poly)^[k] (x % 2 ^ k) := by
  conv_lhs => rw [← xor_shift_mod x k]
  rw [iterate_crcShift_xor, iterate_crcShift_shiftLeft]

/-- The first stage leaves the steps of 64, and above its low word those of 32 more. -/
lemma efCrc32Reduce128To64_cong (hF : F < 2 ^ 128) :
    let K := efCrc32Reduce128To64 F (mmPair efCrc32EtherPclmul.rk5 efCrc32EtherPclmul.rk6)
    K < 2 ^ 96 ∧ CrcCong crc32Poly (K >>> 32) ((crcShift crc32Poly)^[96] F) := by
  obtain ⟨-, -, hr5, hr6, -⟩ := rk_cong
  obtain ⟨-, -, h5, h6, -⟩ := rk_lt
  have hle : 2 ^ 32 ≤ 2 ^ 33 := Nat.pow_le_pow_right (by decide) (by decide)
  have hlow : qword F 0 < 2 ^ 64 := Nat.mod_lt _ (Nat.two_pow_pos 64)
  -- the register between the two products
  obtain ⟨G, hG, hGlt, hGcong⟩ : ∃ G, clmul 64 (qword F 0) efCrc32EtherPclmul.rk5 ^^^ F >>> 64 = G ∧
      G < 2 ^ 96 ∧ CrcCong crc32Poly G ((crcShift crc32Poly)^[64] F) := by
    refine ⟨_, rfl, ?_, ?_⟩
    · have hprod : clmul 64 (qword F 0) efCrc32EtherPclmul.rk5 < 2 ^ (64 + 31) := clmul_lt 64 _ h5
      have hshift : F >>> 64 < 2 ^ 96 := by
        rw [Nat.shiftRight_eq_div_pow]
        omega
      refine Nat.xor_lt_two_pow (hprod.trans_le ?_) hshift
      exact Nat.pow_le_pow_right (by decide) (by decide)
    · rw [steps_of_split 64 F, Nat.xor_comm (F >>> 64)]
      exact (crcCong_clmul hr5 hlow).xor (.refl _ _)
  have hwords := mmClmulepi64_mmPair (h5.trans_le hle) h6
  have hword : qword (mmSlliSi128 G 4) 0 = (G % 2 ^ 32) <<< 32 := by
    unfold mmSlliSi128
    rw [qword_zero, Nat.shiftLeft_eq, Nat.shiftLeft_eq]
    omega
  have hK : efCrc32Reduce128To64 F (mmPair efCrc32EtherPclmul.rk5 efCrc32EtherPclmul.rk6) =
      clmul 32 (G % 2 ^ 32) efCrc32EtherPclmul.rk6 <<< 32 ^^^ G := by
    unfold efCrc32Reduce128To64
    simp only [(hwords _).1, (hwords _).2.2, mmSrliSi128]
    rw [hG, hword]
    exact congrArg (· ^^^ G) (clmul_shiftLeft 32 32 _ _)
  have hprod : clmul 32 (G % 2 ^ 32) efCrc32EtherPclmul.rk6 < 2 ^ (32 + 32) := clmul_lt 32 _ h6
  intro K
  have hK' : K = clmul 32 (G % 2 ^ 32) efCrc32EtherPclmul.rk6 <<< 32 ^^^ G := hK
  refine ⟨?_, ?_⟩
  · rw [hK']
    refine Nat.xor_lt_two_pow ?_ hGlt
    rw [Nat.shiftLeft_eq]
    omega
  · have hmod : G % 2 ^ 32 < 2 ^ 32 := Nat.mod_lt _ (Nat.two_pow_pos 32)
    rw [hK', Nat.shiftRight_xor_distrib, Nat.shiftLeft_shiftRight,
      Function.iterate_add_apply _ 32 64]
    refine ((crcCong_clmul hr6 hmod).xor (.refl _ _)).trans ?_
    have hsteps := steps_of_split 32 G
    rw [Nat.xor_comm] at hsteps
    rw [← hsteps]
    exact hGcong.iterate 32

/-- The quotient of the Barrett reduction, for the low word `k`. -/
def barrettQuotient (k : ℕ) : ℕ := (clmul 32 k efCrc32EtherPclmul.rk7 ^^^ k) % 2 ^ 32

/-- **The constant `rk7`, with its bit 0 set, is the inverse of the polynomial modulo `2 ^ 32`**:
the product of the quotient with the polynomial has the low word it came from. -/
lemma barrett_low {k : ℕ} (hk : k < 2 ^ 32) :
    clmul 32 (barrettQuotient k) efCrc32EtherPclmul.rk8 % 2 ^ 32 = k := by
  have hquot : ∀ a b, barrettQuotient (a ^^^ b) = barrettQuotient a ^^^ barrettQuotient b := by
    intro a b
    unfold barrettQuotient
    rw [clmul_xor_left, Nat.xor_mod_two_pow, Nat.xor_mod_two_pow, Nat.xor_mod_two_pow,
      Nat.xor_mod_two_pow, Nat.xor_mod_two_pow, Nat.xor_assoc, Nat.xor_assoc,
      Nat.xor_left_comm (clmul 32 b _ % _)]
  refine eq_of_two_pow (w := 32) (g := fun k => k)
    (f := fun k => clmul 32 (barrettQuotient k) efCrc32EtherPclmul.rk8 % 2 ^ 32) ?_ ?_ ?_ hk
  · intro a b
    show clmul 32 (barrettQuotient (a ^^^ b)) _ % _ = _
    rw [hquot, clmul_xor_left, Nat.xor_mod_two_pow]
  · intro a b
    rfl
  · have hbasis : ∀ i : Fin 32, clmul 32 (barrettQuotient (2 ^ i.val)) efCrc32EtherPclmul.rk8 % 2 ^ 32 =
        2 ^ i.val := by decide +kernel
    exact fun i hi => hbasis ⟨i, hi⟩

/-- The first mask cuts to 64 bits.
Source: `ef_crc_pclmul.c`, `ef_crc32_reduce_128_to_64` -/
lemma and_mask1 (x : ℕ) : x &&& mask1 = x % 2 ^ 64 := Nat.and_two_pow_sub_one_eq_mod x 64

/-- The second mask clears 32 bits.
Source: `ef_crc_pclmul.c`, `ef_crc32_reduce_64_to_32` -/
lemma and_mask2 (hK : K < 2 ^ 128) : K &&& mask2 = (K >>> 32) <<< 32 := by
  have hmask : mask2 = (2 ^ 96 - 1) <<< 32 := by decide
  apply Nat.eq_of_testBit_eq
  intro i
  rw [hmask, Nat.testBit_and, Nat.testBit_shiftLeft, Nat.testBit_shiftLeft, Nat.testBit_shiftRight,
    Nat.testBit_two_pow_sub_one]
  by_cases hi : 32 ≤ i
  · rw [Nat.add_sub_cancel' hi]
    by_cases htop : i < 128
    · simp [hi, show i - 32 < 96 by omega]
    · have hbit : K.testBit i = false := by
        apply Nat.testBit_lt_two_pow
        exact hK.trans_le (Nat.pow_le_pow_right (by decide) (Nat.not_lt.1 htop))
      simp [hbit]
  · simp [hi]

/-- The second stage takes 32 steps of what is above the low word. -/
lemma efCrc32Reduce64To32_cong (hK : K < 2 ^ 96) :
    let c := efCrc32Reduce64To32 K (mmPair efCrc32EtherPclmul.rk7 efCrc32EtherPclmul.rk8)
    c < 2 ^ 32 ∧ CrcCong crc32Poly c ((crcShift crc32Poly)^[32] (K >>> 32)) := by
  obtain ⟨-, -, -, -, hr8⟩ := rk_cong
  obtain ⟨-, -, -, -, h7, h8⟩ := rk_lt
  have hwords := mmClmulepi64_mmPair h7 h8
  have hlarge : 2 ^ 96 ≤ 2 ^ 128 := Nat.pow_le_pow_right (by decide) (by decide)
  obtain ⟨k, hk, hklt⟩ : ∃ k, K >>> 32 = k ∧ k < 2 ^ 64 := by
    refine ⟨_, rfl, ?_⟩
    rw [Nat.shiftRight_eq_div_pow]
    omega
  -- the quotient, in the upper half of the low word of the register
  obtain ⟨q, hq, hqlt⟩ : ∃ q, barrettQuotient (k % 2 ^ 32) = q ∧ q < 2 ^ 32 :=
    ⟨_, rfl, Nat.mod_lt _ (Nat.two_pow_pos 32)⟩
  have hlow : clmul 32 q efCrc32EtherPclmul.rk8 % 2 ^ 32 = k % 2 ^ 32 := by
    rw [← hq]
    exact barrett_low (Nat.mod_lt _ (Nat.two_pow_pos 32))
  have htmp1 : (mmClmulepi64 (k <<< 32) (mmPair efCrc32EtherPclmul.rk7 efCrc32EtherPclmul.rk8) 0x00 ^^^
      k <<< 32) &&& mask1 = q <<< 32 := by
    have hword : qword (k <<< 32) 0 = (k % 2 ^ 32) <<< 32 := by
      rw [qword_zero, Nat.shiftLeft_eq, Nat.shiftLeft_eq]
      omega
    have hprod : clmul 64 ((k % 2 ^ 32) <<< 32) efCrc32EtherPclmul.rk7 =
        clmul 32 (k % 2 ^ 32) efCrc32EtherPclmul.rk7 <<< 32 := clmul_shiftLeft 32 32 _ _
    have hmod : ∀ x, x <<< 32 % 2 ^ 64 = (x % 2 ^ 32) <<< 32 := by
      intro x
      rw [Nat.shiftLeft_eq, Nat.shiftLeft_eq]
      omega
    rw [(hwords _).1, hword, hprod, and_mask1, ← Nat.shiftLeft_xor_distrib, hmod, ← hq]
    unfold barrettQuotient
    rw [Nat.xor_mod_two_pow, Nat.xor_mod_two_pow, Nat.mod_mod]
  have hprod : mmClmulepi64 (q <<< 32) (mmPair efCrc32EtherPclmul.rk7 efCrc32EtherPclmul.rk8) 0x10 =
      clmul 32 q efCrc32EtherPclmul.rk8 <<< 32 := by
    have hword : qword (q <<< 32) 0 = q <<< 32 := by
      rw [qword_zero, Nat.shiftLeft_eq]
      omega
    rw [(hwords _).2.2, hword]
    exact clmul_shiftLeft 32 32 _ _
  -- what the polynomial leaves of `k` lies above the low word
  obtain ⟨z, hz⟩ : ∃ z, z = clmul 32 q efCrc32EtherPclmul.rk8 ^^^ k := ⟨_, rfl⟩
  have hzlow : z % 2 ^ 32 = 0 := by rw [hz, Nat.xor_mod_two_pow, hlow, Nat.xor_self]
  have hzlt : z < 2 ^ 64 := by
    have hlt : clmul 32 q efCrc32EtherPclmul.rk8 < 2 ^ (32 + 32) := clmul_lt 32 q h8
    rw [hz]
    exact Nat.xor_lt_two_pow hlt hklt
  have hc : efCrc32Reduce64To32 K (mmPair efCrc32EtherPclmul.rk7 efCrc32EtherPclmul.rk8) =
      z >>> 32 := by
    unfold efCrc32Reduce64To32
    simp only
    rw [and_mask2 (hK.trans_le hlarge), hk, htmp1, hprod, ← Nat.shiftLeft_xor_distrib,
      ← Nat.shiftLeft_xor_distrib, Nat.xor_right_comm, ← hz]
    unfold mmExtractEpi32
    have hqz : q >>> 32 = 0 := by
      rw [Nat.shiftRight_eq_div_pow]
      exact Nat.div_eq_of_lt hqlt
    rw [show 32 * 2 = 32 + 32 by decide, Nat.shiftRight_add, Nat.shiftLeft_shiftRight,
      Nat.shiftRight_xor_distrib, hqz, Nat.xor_zero, Nat.mod_eq_of_lt]
    rw [Nat.shiftRight_eq_div_pow]
    omega
  have hzcong : CrcCong crc32Poly z k := by
    have hmul := (hr8.clmul 32 q).xor (.refl crc32Poly k)
    rwa [clmul_zero_right, Nat.zero_xor, ← hz] at hmul
  intro c
  have hcz : c = z >>> 32 := hc
  refine ⟨?_, ?_⟩
  · rw [hcz, Nat.shiftRight_eq_div_pow]
    omega
  · have hsteps := steps_of_split 32 z
    rw [hzlow, iterate_crcShift_zero, Nat.xor_zero] at hsteps
    rw [hcz, ← hsteps, hk]
    exact hzcong.iterate 32

/-- **Reduction** of a register is 128 steps. -/
lemma reduction12864_eq (hF : F < 2 ^ 128) :
    reduction12864 efCrc32EtherPclmul F < 2 ^ 32 ∧
      CrcCong crc32Poly (reduction12864 efCrc32EtherPclmul F) ((crcShift crc32Poly)^[128] F) := by
  obtain ⟨hK, hcong⟩ := efCrc32Reduce128To64_cong hF
  obtain ⟨hlt, hcong'⟩ := efCrc32Reduce64To32_cong hK
  refine ⟨hlt, hcong'.trans ?_⟩
  rw [Function.iterate_add_apply _ 32 96]
  exact hcong.iterate 32

/-! ### Partial blocks -/

/-- The control bytes for a rest of `r` bytes. -/
lemma shfTable_control : ∀ r : Fin 16, r.val ≠ 0 → ∀ i : Fin 16,
    byteOf (mmLoad shfTable r.val) i.val =
        (if i.val < 16 - r.val then 0x80 + (r.val + i.val) else i.val - (16 - r.val)) ∧
      byteOf (mmLoad shfTable r.val ^^^ mask3) i.val =
        (if i.val < 16 - r.val then r.val + i.val else 0x80 + (i.val - (16 - r.val))) := by
  decide +kernel

/-- The control bytes of a shift by `num` bytes. -/
lemma xmmShiftTab_control : ∀ num : Fin 17, ∀ i : Fin 16,
    byteOf (mmLoad efCrcXmmShiftTab (16 - num.val)) i.val =
      if i.val < num.val then 0xff else i.val - num.val := by
  decide +kernel

/-- The top bit of an index of the shuffle says whether the byte is cleared. -/
lemma testBit_seven : ∀ i : Fin 16, (0x80 + i.val).testBit 7 = true ∧ i.val.testBit 7 = false :=
    by decide

/-- The shuffle is a shift by whole bytes.
Source: `ef_crc_pclmul.c`, `ef_crc_xmm_shift_left` -/
lemma efCrcXmmShiftLeft_eq {num : ℕ} (hnum : num ≤ 16) (x : ℕ) :
    efCrcXmmShiftLeft x num = (x % 2 ^ (8 * (16 - num))) <<< (8 * num) := by
  unfold efCrcXmmShiftLeft mmShuffleEpi8
  rw [← joinBytes_up x hnum]
  apply joinBytes_congr
  intro i hi
  have hctl := xmmShiftTab_control ⟨num, by omega⟩ ⟨i, hi⟩
  simp only at hctl
  rw [hctl]
  by_cases hlow : i < num
  · rw [if_pos hlow, if_pos hlow, if_pos (by decide)]
  · have hbit := (testBit_seven ⟨i - num, by omega⟩).2
    simp only at hbit
    rw [if_neg hlow, if_neg hlow, hbit, if_neg (by decide), Nat.mod_eq_of_lt (by omega)]

section Partial

variable (hr : r < 16) (hr0 : r ≠ 0)

include hr hr0

/-- The first `r` bytes of the register go up to its end. -/
lemma shuffle_up (x : ℕ) :
    mmShuffleEpi8 x (mmLoad shfTable r) = (x % 2 ^ (8 * r)) <<< (8 * (16 - r)) := by
  have hup := joinBytes_up x (Nat.sub_le 16 r)
  rw [Nat.sub_sub_self hr.le] at hup
  unfold mmShuffleEpi8
  rw [← hup]
  apply joinBytes_congr
  intro i hi
  have hctl := (shfTable_control ⟨r, hr⟩ hr0 ⟨i, hi⟩).1
  simp only at hctl
  rw [hctl]
  by_cases hlow : i < 16 - r
  · have hbit := (testBit_seven ⟨r + i, by omega⟩).1
    simp only at hbit
    rw [if_pos hlow, if_pos hlow, hbit, if_pos rfl]
  · have hbit := (testBit_seven ⟨i - (16 - r), by omega⟩).2
    simp only at hbit
    rw [if_neg hlow, if_neg hlow, hbit, if_neg (by decide), Nat.mod_eq_of_lt (by omega)]

/-- The other bytes go down to its start. -/
lemma shuffle_down (hx : x < 2 ^ 128) :
    mmShuffleEpi8 x (mmLoad shfTable r ^^^ mask3) = x >>> (8 * r) := by
  unfold mmShuffleEpi8
  rw [← joinBytes_down (show x < 2 ^ (8 * 16) from hx) hr.le]
  apply joinBytes_congr
  intro i hi
  have hctl := (shfTable_control ⟨r, hr⟩ hr0 ⟨i, hi⟩).2
  simp only at hctl
  rw [hctl]
  by_cases hlow : i < 16 - r
  · have hbit := (testBit_seven ⟨r + i, by omega⟩).2
    simp only at hbit
    rw [if_pos hlow, if_pos hlow, hbit, if_neg (by decide), Nat.mod_eq_of_lt (by omega)]
  · have hbit := (testBit_seven ⟨i - (16 - r), by omega⟩).1
    simp only at hbit
    rw [if_neg hlow, if_neg hlow, hbit, if_pos rfl]

/-- And the last `r` bytes of the data take the place they leave. -/
lemma blend_eq (a : ℕ) {b : ℕ} (hb : b < 2 ^ 128) :
    mmBlendvEpi8 a b (mmLoad shfTable r ^^^ mask3) =
      a % 2 ^ (8 * (16 - r)) ^^^ (b >>> (8 * (16 - r))) <<< (8 * (16 - r)) := by
  unfold mmBlendvEpi8
  rw [← joinBytes_blend a (show b < 2 ^ (8 * 16) from hb) (Nat.sub_le 16 r)]
  apply joinBytes_congr
  intro i hi
  have hctl := (shfTable_control ⟨r, hr⟩ hr0 ⟨i, hi⟩).2
  simp only at hctl
  rw [hctl]
  by_cases hlow : i < 16 - r
  · have hbit := (testBit_seven ⟨r + i, by omega⟩).2
    simp only at hbit
    rw [if_pos hlow, if_pos hlow, hbit, if_neg (by decide)]
  · have hbit := (testBit_seven ⟨i - (16 - r), by omega⟩).1
    simp only at hbit
    rw [if_neg hlow, if_neg hlow, hbit, if_pos rfl]

end Partial

/-! ### The body -/

/-- The register stands for the word `c`: it is `c` up to 128 steps. -/
structure Carries (F c : ℕ) : Prop where
  lt : F < 2 ^ 128
  cong : CrcCong crc32Poly ((crcShift crc32Poly)^[128] F) c

variable {c n : ℕ}

/-- A fed list, as one shift of the register and the list's number. -/
lemma crc32Feed_eq (crc : ℕ) (bs : List UInt8) :
    crc32Feed crc bs = (crcShift crc32Poly)^[8 * bs.length] (crc ^^^ leNat bs) :=
  crcFeed_eq crc32Poly crc bs

/-- Two lists are fed one after the other. -/
lemma crc32Feed_append (crc : ℕ) (bs bs' : List UInt8) :
    crc32Feed crc (bs ++ bs') = crc32Feed (crc32Feed crc bs) bs' := crcFeed_append crc32Poly crc bs bs'

/-- Two words of a register with one residue are equal. -/
lemma eq_of_crcCong {x y : ℕ} (h : CrcCong crc32Poly x y) (hx : x < 2 ^ 32) (hy : y < 2 ^ 32) : x = y :=
  h.eq_of_lt crc32Poly_lt crc32Poly_top hx hy

/-- A loaded block fits 128 bits. -/
lemma mmLoad_lt (data : List UInt8) (off : ℕ) : mmLoad data off < 2 ^ 128 := by
  refine (leNat_lt _).trans_le (Nat.pow_le_pow_right (by decide) ?_)
  rw [List.length_take]
  omega

/-- A register is reduced to the word that it stands for. -/
lemma Carries.reduction (h : Carries F c) (hc : c < 2 ^ 32) :
    reduction12864 efCrc32EtherPclmul F = c := by
  obtain ⟨hlt, hcong⟩ := reduction12864_eq h.lt
  exact eq_of_crcCong (hcong.trans h.cong) hlt hc

/-- The first sixteen bytes. -/
lemma carries_first (hcrc : crc < 2 ^ 32) (hlen : 16 ≤ data.length) :
    Carries (mmLoad data 0 ^^^ crc) (crc32Feed crc (data.take 16)) := by
  refine ⟨Nat.xor_lt_two_pow (mmLoad_lt data 0) (hcrc.trans_le ?_), ?_⟩
  · exact Nat.pow_le_pow_right (by decide) (by decide)
  · rw [crc32Feed_eq, List.length_take, Nat.min_eq_left hlen, Nat.xor_comm]
    exact .refl _ _

/-- A round takes in sixteen bytes. -/
lemma Carries.round (h : Carries F c) {bs : List UInt8} (hlen : bs.length = 16) :
    Carries (efCrc32FoldingRound (leNat bs) (mmPair efCrc32EtherPclmul.rk1 efCrc32EtherPclmul.rk2) F)
      (crc32Feed c bs) := by
  have hbs : leNat bs < 2 ^ 128 := by
    have hlt := leNat_lt bs
    rwa [hlen] at hlt
  rw [efCrc32FoldingRound_eq, crc32Feed_eq, hlen]
  refine ⟨Nat.xor_lt_two_pow (folded_lt F) hbs, ?_⟩
  exact (((folded_cong h.lt).trans h.cong).xor (.refl _ _)).iterate 128

/-- The folding loop stops less than a block before the end. -/
lemma foldLoop_spec (fuel : ℕ) (hfold : Carries F (crc32Feed crc (data.take n))) (hn : 16 ∣ n)
    (hle : n ≤ data.length) (hfuel : data.length < n + 16 * fuel + 16) :
    let r := foldLoop data (mmPair efCrc32EtherPclmul.rk1 efCrc32EtherPclmul.rk2) fuel n F
    Carries r.2 (crc32Feed crc (data.take r.1)) ∧ 16 ∣ r.1 ∧ n ≤ r.1 ∧ r.1 ≤ data.length ∧
      data.length < r.1 + 16 := by
  induction fuel generalizing n F with
  | zero => exact ⟨hfold, hn, le_rfl, hle, (by omega : data.length < n + 16)⟩
  | succ fuel ih =>
      unfold foldLoop
      by_cases hnext : n + 16 ≤ data.length
      · rw [if_pos hnext]
        have hblock : ((data.drop n).take 16).length = 16 := by
          rw [List.length_take, List.length_drop]
          omega
        have hround := hfold.round hblock
        rw [← crc32Feed_append, ← List.take_add] at hround
        obtain ⟨hcarries, hdvd, hge, hle', hlt⟩ :=
          ih hround (Nat.dvd_add hn (Nat.dvd_refl 16)) hnext (by omega)
        exact ⟨hcarries, hdvd, (Nat.le_add_right n 16).trans hge, hle', hlt⟩
      · rw [if_neg hnext]
        exact ⟨hfold, hn, le_rfl, hle, (by omega : data.length < n + 16)⟩

/-- The high bytes of a word that is put together. -/
lemma xor_shiftLeft_shiftRight {u v k : ℕ} (hu : u < 2 ^ k) : (u ^^^ v <<< k) >>> k = v := by
  rw [Nat.shiftRight_xor_distrib, Nat.shiftLeft_shiftRight, Nat.shiftRight_eq_div_pow,
    Nat.div_eq_of_lt hu, Nat.zero_xor]

/-- Steps of a word that was shifted by less. -/
lemma iterate_shiftLeft_of_le {j k x : ℕ} (hjk : j ≤ k) :
    (crcShift crc32Poly)^[k] (x <<< j) = (crcShift crc32Poly)^[k - j] x := by
  have hsplit : k = k - j + j := (Nat.sub_add_cancel hjk).symm
  conv_lhs => rw [hsplit]
  rw [Function.iterate_add_apply, iterate_crcShift_shiftLeft]

section Rest

variable (hlen : data.length = n + r) (hr : r < 16)

include hlen hr

/-- The last sixteen bytes of the data, of which `r` are new. -/
lemma mmLoad_last (hn : 16 ≤ n) :
    mmLoad data (data.length - 16) >>> (8 * (16 - r)) = leNat (data.drop n) := by
  have hdrop : data.drop n = (data.drop (data.length - 16)).drop (16 - r) := by
    rw [List.drop_drop]
    congr 1
    omega
  have hsplit : (data.drop (data.length - 16)).take 16 =
      (data.drop (data.length - 16)).take (16 - r) ++ data.drop n := by
    rw [hdrop, List.take_append_drop, List.take_of_length_le]
    rw [List.length_drop]
    omega
  have hpre : ((data.drop (data.length - 16)).take (16 - r)).length = 16 - r := by
    rw [List.length_take, List.length_drop]
    omega
  have hlt := leNat_lt ((data.drop (data.length - 16)).take (16 - r))
  rw [hpre] at hlt
  unfold mmLoad
  rw [hsplit, leNat_append, hpre]
  exact xor_shiftLeft_shiftRight hlt

/-- The register after the rest: what it held of the first bytes is folded, the others make room. -/
lemma partialBytes_eq (hn : 16 ≤ n) (hr0 : r ≠ 0) (hdvd : 16 ∣ n) (hF : F < 2 ^ 128) :
    partialBytes data (mmPair efCrc32EtherPclmul.rk1 efCrc32EtherPclmul.rk2) n F =
      folded ((F % 2 ^ (8 * r)) <<< (8 * (16 - r))) ^^^
        (F >>> (8 * r) ^^^ leNat (data.drop n) <<< (8 * (16 - r))) := by
  have hmod : data.length % 16 = r := by omega
  have hle : 2 ^ 32 ≤ 2 ^ 33 := Nat.pow_le_pow_right (by decide) (by decide)
  have hwords := mmClmulepi64_mmPair (rk_lt.1.trans_le hle) rk_lt.2.1
    ((F % 2 ^ (8 * r)) <<< (8 * (16 - r)))
  have hshift : F >>> (8 * r) < 2 ^ (8 * (16 - r)) := by
    rw [show 128 = 8 * (16 - r) + 8 * r by omega, pow_add] at hF
    rw [Nat.shiftRight_eq_div_pow]
    exact Nat.div_lt_of_lt_mul (by rwa [Nat.mul_comm])
  unfold partialBytes
  rw [if_pos (by omega), hmod]
  simp only
  rw [shuffle_up hr hr0, shuffle_down hr hr0 hF, blend_eq hr hr0 _ (mmLoad_lt _ _),
    mmLoad_last hlen hr hn, hwords.2.1, hwords.2.2, Nat.mod_eq_of_lt hshift]
  rfl

/-- It stands for the CRC of all the data. -/
lemma Carries.rest (h : Carries F (crc32Feed crc (data.take n))) :
    Carries (folded ((F % 2 ^ (8 * r)) <<< (8 * (16 - r))) ^^^
      (F >>> (8 * r) ^^^ leNat (data.drop n) <<< (8 * (16 - r)))) (crc32Feed crc data) := by
  have hT : (data.drop n).length = r := by
    rw [List.length_drop]
    omega
  have hplace : ∀ x, x < 2 ^ (8 * r) → x <<< (8 * (16 - r)) < 2 ^ 128 := by
    intro x hx
    have hmul := Nat.mul_lt_mul_of_pos_right hx (Nat.two_pow_pos (8 * (16 - r)))
    rwa [← pow_add, show 8 * r + 8 * (16 - r) = 128 by omega, ← Nat.shiftLeft_eq] at hmul
  have hsteps : ∀ x, (crcShift crc32Poly)^[128] (x <<< (8 * (16 - r))) =
      (crcShift crc32Poly)^[8 * r] x := by
    intro x
    rw [iterate_shiftLeft_of_le (by omega), show 128 - 8 * (16 - r) = 8 * r by omega]
  have hTlt := leNat_lt (data.drop n)
  rw [hT] at hTlt
  have hlow : F >>> (8 * r) < 2 ^ 128 := (Nat.shiftRight_le F (8 * r)).trans_lt h.lt
  refine ⟨Nat.xor_lt_two_pow (folded_lt _) (Nat.xor_lt_two_pow hlow (hplace _ hTlt)), ?_⟩
  -- the CRC of the data, with the register in place of the blocks
  have hfeed : CrcCong crc32Poly (crc32Feed crc data)
      ((crcShift crc32Poly)^[8 * r] ((crcShift crc32Poly)^[128] F ^^^ leNat (data.drop n))) := by
    have happ := crc32Feed_append crc (data.take n) (data.drop n)
    rw [List.take_append_drop, crc32Feed_eq (crc32Feed crc (data.take n)), hT] at happ
    rw [happ]
    exact (h.cong.symm.xor (.refl _ _)).iterate _
  refine CrcCong.trans ?_ hfeed.symm
  have hF : (crcShift crc32Poly)^[8 * r] ((crcShift crc32Poly)^[128] F) =
      (crcShift crc32Poly)^[128] ((crcShift crc32Poly)^[8 * r] (F % 2 ^ (8 * r))) ^^^
        (crcShift crc32Poly)^[128] (F >>> (8 * r)) := by
    rw [← Function.iterate_add_apply, Nat.add_comm, Function.iterate_add_apply, steps_of_split
        (8 * r) F,
      iterate_crcShift_xor, Nat.xor_comm]
  have hfolded := folded_cong (hplace (F % 2 ^ (8 * r)) (Nat.mod_lt _ (Nat.two_pow_pos _)))
  rw [hsteps] at hfolded
  rw [iterate_crcShift_xor _ 128, iterate_crcShift_xor _ 128, hsteps, iterate_crcShift_xor _
      (8 * r), hF,
    Nat.xor_assoc]
  exact (hfolded.iterate 128).xor (.refl _ _)

end Rest

/-- The rest behind the last whole block. -/
lemma carries_partialBytes (hfold : Carries F (crc32Feed crc (data.take n))) (hdvd : 16 ∣ n)
    (hn : 16 ≤ n) (hle : n ≤ data.length) (hlt : data.length < n + 16) :
    Carries (partialBytes data (mmPair efCrc32EtherPclmul.rk1 efCrc32EtherPclmul.rk2) n F)
      (crc32Feed crc data) := by
  by_cases hrest : n < data.length
  · have hlen : data.length = n + (data.length - n) := by omega
    have hr : data.length - n < 16 := by omega
    rw [partialBytes_eq hlen hr hn (by omega) hdvd hfold.lt]
    exact hfold.rest hlen hr
  · unfold partialBytes
    rw [if_neg hrest]
    rwa [List.take_of_length_le (Nat.not_lt.1 hrest)] at hfold

/-! ### Short data -/

/-- Zero bytes are the number `0`. -/
lemma leNat_zeros (k : ℕ) : leNat (List.replicate k 0) = 0 := by
  induction k with
  | zero => rfl
  | succ k ih =>
      rw [List.replicate_succ, leNat, ih]
      rfl

/-- Data below sixteen bytes, filled up with zeros. -/
lemma mmLoad_padded (hlen : data.length < 16) :
    mmLoad (data ++ List.replicate (16 - data.length) 0) 0 = leNat data := by
  unfold mmLoad
  rw [List.drop_zero, List.take_of_length_le, leNat_append, leNat_zeros, Nat.zero_shiftLeft,
      Nat.xor_zero]
  rw [List.length_append, List.length_replicate]
  omega

/-- Four bytes and more are shifted to the end of the register. -/
lemma carries_shiftLeft (hcrc : crc < 2 ^ 32) (h4 : 4 ≤ data.length) (h16 : data.length < 16) :
    Carries (efCrcXmmShiftLeft (leNat data ^^^ crc) (16 - data.length)) (crc32Feed crc data) := by
  have hlt : leNat data ^^^ crc < 2 ^ (8 * data.length) := by
    refine Nat.xor_lt_two_pow (leNat_lt data) (hcrc.trans_le ?_)
    exact Nat.pow_le_pow_right (by decide) (by omega)
  have hback : 16 - (16 - data.length) = data.length := by omega
  rw [efCrcXmmShiftLeft_eq (Nat.sub_le 16 _), hback, Nat.mod_eq_of_lt hlt]
  refine ⟨?_, ?_⟩
  · have hmul := Nat.mul_lt_mul_of_pos_right hlt (Nat.two_pow_pos (8 * (16 - data.length)))
    rwa [← pow_add, show 8 * data.length + 8 * (16 - data.length) = 128 by omega,
      ← Nat.shiftLeft_eq] at hmul
  · rw [iterate_shiftLeft_of_le (by omega), crc32Feed_eq, Nat.xor_comm crc,
      show 128 - 8 * (16 - data.length) = 8 * data.length by omega]
    exact .refl _ _

/-- Fewer bytes go straight to the second stage. -/
lemma barretReduction_short (hcrc : crc < 2 ^ 32) (h4 : data.length < 4) :
    barretReduction efCrc32EtherPclmul (efCrcXmmShiftLeft (leNat data ^^^ crc) (8 - data.length)) =
      crc32Feed crc data := by
  have hlt : leNat data ^^^ crc < 2 ^ 32 := by
    refine Nat.xor_lt_two_pow ((leNat_lt data).trans_le ?_) hcrc
    exact Nat.pow_le_pow_right (by decide) (by omega)
  have hroom : leNat data ^^^ crc < 2 ^ (8 * (16 - (8 - data.length))) :=
    hlt.trans_le (Nat.pow_le_pow_right (by decide) (by omega))
  have hshift : efCrcXmmShiftLeft (leNat data ^^^ crc) (8 - data.length) =
      (leNat data ^^^ crc) <<< (32 - 8 * data.length) <<< 32 := by
    rw [efCrcXmmShiftLeft_eq (by omega), Nat.mod_eq_of_lt hroom, ← Nat.shiftLeft_add,
      show 32 - 8 * data.length + 32 = 8 * (8 - data.length) by omega]
  have hK : efCrcXmmShiftLeft (leNat data ^^^ crc) (8 - data.length) < 2 ^ 96 := by
    have hmul := Nat.mul_lt_mul_of_pos_right hlt (Nat.two_pow_pos (32 - 8 * data.length + 32))
    rw [← pow_add, ← Nat.shiftLeft_eq, Nat.shiftLeft_add, ← hshift] at hmul
    exact hmul.trans_le (Nat.pow_le_pow_right (by decide) (by omega))
  obtain ⟨hlt', hcong⟩ := efCrc32Reduce64To32_cong hK
  refine eq_of_crcCong (hcong.trans ?_) hlt' (crc32Feed_lt hcrc data)
  rw [hshift, Nat.shiftLeft_shiftRight, iterate_shiftLeft_of_le (Nat.sub_le 32 _), crc32Feed_eq,
    Nat.xor_comm crc, Nat.sub_sub_self (by omega)]
  exact .refl _ _

/-- **The body**, for data of any length. -/
theorem efCrc32PclmulBody_eq (hcrc : crc < 2 ^ 32) (data : List UInt8) :
    efCrc32PclmulBody data crc efCrc32EtherPclmul = crc32Feed crc data := by
  have hfeed : crc32Feed crc data < 2 ^ 32 := crc32Feed_lt hcrc data
  unfold efCrc32PclmulBody
  by_cases h0 : data.length = 0
  · simp only
    rw [if_pos h0, List.eq_nil_of_length_eq_zero h0]
    rfl
  simp only
  rw [if_neg h0]
  by_cases h32 : data.length < 32
  · rw [if_pos h32]
    by_cases h16 : data.length = 16
    · have hfirst := carries_first hcrc h16.ge
      rw [if_pos h16]
      rw [List.take_of_length_le h16.le] at hfirst
      exact hfirst.reduction hfeed
    rw [if_neg h16]
    by_cases hlt : data.length < 16
    · rw [if_pos hlt, mmLoad_padded hlt]
      by_cases h4 : data.length < 4
      · rw [if_pos h4]
        exact barretReduction_short hcrc h4
      · rw [if_neg h4]
        exact (carries_shiftLeft hcrc (Nat.not_lt.1 h4) hlt).reduction hfeed
    · rw [if_neg hlt]
      have hge : 16 ≤ data.length := Nat.not_lt.1 hlt
      exact (carries_partialBytes (carries_first hcrc hge)
          (Nat.dvd_refl 16) le_rfl hge h32).reduction hfeed
  · rw [if_neg h32]
    have hge : 16 ≤ data.length := by omega
    obtain ⟨hcarries, hdvd, hn, hle, hlt⟩ := foldLoop_spec (data.length / 16)
      (carries_first hcrc hge) (Nat.dvd_refl 16) hge (by omega)
    exact (carries_partialBytes hcarries hdvd hn hle hlt).reduction hfeed

/-! ### The update -/

/-- The loop over the chunks stops with less than 64 bytes left. -/
lemma pclmulLoop_spec (fuel : ℕ) {offset out : ℕ} (hcrc : crc < 2 ^ 32)
    (hout : out = crc32Feed crc (data.take offset)) (hle : offset ≤ data.length)
    (hfuel : data.length - offset ≤ fuel) :
    let r := pclmulLoop data fuel offset out
    r.2 = crc32Feed crc (data.take r.1) ∧ r.1 ≤ data.length ∧ data.length - r.1 < crcPclmulMin := by
  induction fuel generalizing offset out with
  | zero =>
      have hend : data.length - offset < crcPclmulMin := Nat.lt_of_le_of_lt hfuel (by decide)
      exact ⟨hout, hle, hend⟩
  | succ fuel ih =>
      unfold pclmulLoop
      by_cases hmin : crcPclmulMin ≤ data.length - offset
      · rw [if_pos hmin]
        simp only
        generalize hchunk : (if 4096 < data.length - offset then 4096 else data.length - offset) = chunk
        have hpos : 0 < crcPclmulMin := by decide
        have hchunkle : offset + chunk ≤ data.length ∧ 0 < chunk := by
          split_ifs at hchunk <;> omega
        have hlt : out < 2 ^ 32 := by
          rw [hout]
          exact crc32Feed_lt hcrc _
        refine ih ?_ hchunkle.1 (by omega)
        rw [efCrc32PclmulBody_eq hlt, hout, ← crc32Feed_append, ← List.take_add]
      · rw [if_neg hmin]
        exact ⟨hout, hle, Nat.not_le.1 hmin⟩

/-- **The fast CRC is the slow CRC**, for every start value and every byte string. -/
theorem efCrc32UpdatePclmul_eq_slice4 (available : Bool) (hcrc : crc < 2 ^ 32) (data : List UInt8) :
    efCrc32UpdatePclmul available crc data = efCrc32UpdateSlice4 crc data := by
  unfold efCrc32UpdatePclmul
  by_cases hslow : available = false ∨ data.length = 0
  · rw [if_pos hslow]
  rw [if_neg hslow]
  have hstart : crc = crc32Feed crc (data.take 0) := rfl
  obtain ⟨hout, hle, -⟩ := pclmulLoop_spec data.length hcrc hstart (Nat.zero_le _) (Nat.sub_le _ _)
  generalize pclmulLoop data data.length 0 crc = r at hout hle ⊢
  obtain ⟨offset, out⟩ := r
  simp only at hout hle ⊢
  rw [efCrc32UpdateSlice4_eq_feed hcrc]
  by_cases hrest : offset < data.length
  · have hlt : out < 2 ^ 32 := by
      rw [hout]
      exact crc32Feed_lt hcrc _
    rw [if_pos hrest, efCrc32UpdateSlice4_eq_feed hlt, hout, ← crc32Feed_append, List.take_append_drop]
  · rw [if_neg hrest, hout, List.take_of_length_le (Nat.not_lt.1 hrest)]

/-- A buffer of one chunk and a part of the next that is no multiple of sixteen bytes. -/
theorem efCrc32UpdatePclmul_eq_slice4_chunks :
    efCrc32UpdatePclmul true 0xFFFFFFFF (List.replicate 4200 7) =
      efCrc32UpdateSlice4 0xFFFFFFFF (List.replicate 4200 7) :=
  efCrc32UpdatePclmul_eq_slice4 true (show 0xFFFFFFFF < 2 ^ 32 by decide) (List.replicate 4200 7)

end Endfields.Model
