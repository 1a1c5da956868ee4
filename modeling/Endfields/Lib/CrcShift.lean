import Mathlib.Data.Nat.Bitwise
import Mathlib.Tactic.Common

/-!
# Words shifted through a feedback polynomial

A reflected CRC register holds its word with the highest power in the lowest bit. A step shifts it
by one place, and puts in the polynomial where a bit has fallen out.

* `crcShift P` is one step, for the polynomial `P`. It is linear (`crcShift_xor`), undone by a shift
  to the left (`iterate_crcShift_shiftLeft`), and one to one on words that are not longer than the
  polynomial (`iterate_crcShift_inj`).
* `crcFeed P` takes the bits of a byte string one after the other: the definition of the CRC.
* **All at once** (`crcFeed_eq`): the register after a byte string is what the steps make of the
  register before, with the whole string put in as one number.
* **Bursts** (`crcFeed_window_inj`): two strings that differ in a window no longer than the
  polynomial leave different registers.
-/

namespace Endfields.Lib

/-! ### Xor -/

/-- A property that holds of the powers of two and is kept by xor holds of every number. -/
lemma xor_induction {p : ℕ → Prop} (hzero : p 0) (hpow : ∀ i, p (2 ^ i))
    (hxor : ∀ a b, p a → p b → p (a ^^^ b)) (a : ℕ) : p a := by
  induction a using Nat.strong_induction_on with
  | _ a ih =>
      by_cases ha : a = 0
      · rwa [ha]
      · have htop : a.testBit a.log2 = true := Nat.testBit_log2 ha
        have hlt : a ^^^ 2 ^ a.log2 < a := by
          refine Nat.lt_of_lt_of_le ?_ (Nat.log2_self_le ha)
          apply Nat.lt_pow_two_of_testBit
          intro i hi
          rw [Nat.testBit_xor, Nat.testBit_two_pow]
          rcases Nat.eq_or_lt_of_le hi with rfl | hi'
          · simp [htop]
          · have hb : a.testBit i = false := by
              refine Nat.testBit_lt_two_pow (Nat.lt_of_lt_of_le Nat.lt_log2_self ?_)
              exact Nat.pow_le_pow_right (by decide) hi'
            simp [hb, Nat.ne_of_lt hi']
        have hsplit : a = (a ^^^ 2 ^ a.log2) ^^^ 2 ^ a.log2 := by
          rw [Nat.xor_assoc, Nat.xor_self, Nat.xor_zero]
        rw [hsplit]
        exact hxor _ _ (ih _ hlt) (hpow _)

/-- A number is its low bits and the others. -/
lemma xor_shift_mod (x k : ℕ) : (x >>> k) <<< k ^^^ x % 2 ^ k = x := by
  apply Nat.eq_of_testBit_eq
  intro i
  rw [Nat.testBit_xor, Nat.testBit_shiftLeft, Nat.testBit_shiftRight, Nat.testBit_mod_two_pow]
  by_cases h : k ≤ i
  · simp [h, Nat.not_lt.2 h]
  · simp [h, Nat.not_le.1 h]

/-- Adding above the low bits is putting in. -/
lemma xor_shiftLeft_of_lt {a b k : ℕ} (ha : a < 2 ^ k) : a ^^^ b <<< k = a + 2 ^ k * b := by
  have h : (a + 2 ^ k * b) >>> k = b := by
    rw [Nat.shiftRight_eq_div_pow, Nat.add_mul_div_left _ _ (Nat.two_pow_pos k),
      Nat.div_eq_of_lt ha, Nat.zero_add]
  have h' : (a + 2 ^ k * b) % 2 ^ k = a := by
    rw [Nat.add_mul_mod_self_left, Nat.mod_eq_of_lt ha]
  conv_rhs => rw [← xor_shift_mod (a + 2 ^ k * b) k, h, h', Nat.xor_comm]

/-! ### The step -/

/-- One step of the register. -/
def crcShift (P x : ℕ) : ℕ := if x % 2 = 1 then (x >>> 1) ^^^ P else x >>> 1

variable {P : ℕ}

/-- The register `0` stays `0`. -/
@[simp] lemma crcShift_zero (P : ℕ) : crcShift P 0 = 0 := rfl

/-- The shift is linear. -/
lemma crcShift_xor (P a b : ℕ) : crcShift P (a ^^^ b) = crcShift P a ^^^ crcShift P b := by
  have hpar := Nat.xor_mod_two_eq_one (a := a) (b := b)
  unfold crcShift
  rw [Nat.shiftRight_xor_distrib]
  by_cases ha : a % 2 = 1 <;> by_cases hb : b % 2 = 1
  · rw [if_neg (by rw [hpar]; simp [ha, hb]), if_pos ha, if_pos hb, Nat.xor_assoc,
      ← Nat.xor_assoc P, Nat.xor_comm P, Nat.xor_assoc, Nat.xor_self, Nat.xor_zero]
  · rw [if_pos (by rw [hpar]; simp [ha, hb]), if_pos ha, if_neg hb, Nat.xor_assoc, Nat.xor_assoc,
      Nat.xor_comm P]
  · rw [if_pos (by rw [hpar]; simp [ha, hb]), if_neg ha, if_pos hb, Nat.xor_assoc]
  · rw [if_neg (by rw [hpar]; simp [ha, hb]), if_neg ha, if_neg hb]

/-- A shift undoes a shift to the left. -/
lemma crcShift_shiftLeft (P x : ℕ) : crcShift P (x <<< 1) = x := by
  have h : x <<< 1 % 2 ≠ 1 := by
    rw [Nat.shiftLeft_eq]
    omega
  unfold crcShift
  rw [if_neg h, Nat.shiftLeft_shiftRight]

/-- The step shortens what is longer than the polynomial. -/
lemma crcShift_lt {n x : ℕ} (hP : P < 2 ^ n) (hx : x < 2 ^ (n + 1)) : crcShift P x < 2 ^ n := by
  have hshift : x >>> 1 < 2 ^ n := by
    rw [Nat.shiftRight_eq_div_pow, Nat.div_lt_iff_lt_mul (by decide)]
    rw [pow_succ] at hx
    omega
  unfold crcShift
  split
  · exact Nat.xor_lt_two_pow hshift hP
  · exact hshift

/-- A polynomial with its top bit set is the only one the step cannot lose. -/
lemma crcShift_eq_zero {n x : ℕ} (htop : P.testBit n = true) (hx : x < 2 ^ (n + 1))
    (h : crcShift P x = 0) : x = 0 := by
  have hshift : x >>> 1 < 2 ^ n := by
    rw [Nat.shiftRight_eq_div_pow, Nat.div_lt_iff_lt_mul (by decide)]
    rw [pow_succ] at hx
    omega
  unfold crcShift at h
  split at h
  · have hbit := congrArg (Nat.testBit · n) h
    simp only [Nat.testBit_xor, htop, Nat.testBit_lt_two_pow hshift, Nat.zero_testBit,
      Bool.false_xor] at hbit
    exact absurd hbit (by decide)
  · rw [Nat.shiftRight_eq_div_pow] at h
    omega

/-! ### Many steps -/

/-- So are `k` shifts. -/
lemma iterate_crcShift_xor (P k a b : ℕ) :
    (crcShift P)^[k] (a ^^^ b) = (crcShift P)^[k] a ^^^ (crcShift P)^[k] b := by
  induction k generalizing a b with
  | zero => rfl
  | succ k ih =>
      rw [Function.iterate_succ_apply, Function.iterate_succ_apply, Function.iterate_succ_apply,
        crcShift_xor, ih]

/-- The register `0` stays `0` over `k` shifts. -/
lemma iterate_crcShift_zero (P k : ℕ) : (crcShift P)^[k] 0 = 0 := by
  induction k with
  | zero => rfl
  | succ k ih => rw [Function.iterate_succ_apply, crcShift_zero, ih]

/-- A shift to the left undoes the steps. -/
lemma iterate_crcShift_shiftLeft (P k x : ℕ) : (crcShift P)^[k] (x <<< k) = x := by
  induction k generalizing x with
  | zero => rfl
  | succ k ih =>
      rw [Function.iterate_succ_apply, Nat.shiftLeft_add, crcShift_shiftLeft, ih]

/-- `k` shifts take `k` bits off the register. -/
lemma iterate_crcShift_lt {n k x : ℕ} (hP : P < 2 ^ n) (hx : x < 2 ^ (n + k)) :
    (crcShift P)^[k] x < 2 ^ n := by
  induction k generalizing x with
  | zero => exact hx
  | succ k ih =>
      rw [Function.iterate_succ_apply]
      refine ih (crcShift_lt ?_ hx)
      exact Nat.lt_of_lt_of_le hP (Nat.pow_le_pow_right (by decide) (Nat.le_add_right n k))

/-- The steps keep a word within the length of the polynomial. -/
lemma iterate_crcShift_lt_self {n x : ℕ} (hP : P < 2 ^ n) (hx : x < 2 ^ n) (k : ℕ) :
    (crcShift P)^[k] x < 2 ^ n :=
  iterate_crcShift_lt hP (Nat.lt_of_lt_of_le hx
    (Nat.pow_le_pow_right (by decide) (Nat.le_add_right n k)))

/-- With the top bit in the polynomial, no other register is shifted to `0`. -/
lemma iterate_crcShift_eq_zero {n x : ℕ} (hP : P < 2 ^ (n + 1)) (htop : P.testBit n = true)
    (hx : x < 2 ^ (n + 1)) {k : ℕ} (h : (crcShift P)^[k] x = 0) : x = 0 := by
  induction k generalizing x with
  | zero => exact h
  | succ k ih =>
      rw [Function.iterate_succ_apply] at h
      have hlt := iterate_crcShift_lt_self hP hx 1
      exact crcShift_eq_zero htop hx (ih hlt h)

/-- Different words stay different. -/
lemma iterate_crcShift_inj {n x y : ℕ} (hP : P < 2 ^ (n + 1)) (htop : P.testBit n = true)
    (hx : x < 2 ^ (n + 1)) (hy : y < 2 ^ (n + 1)) {k : ℕ}
    (h : (crcShift P)^[k] x = (crcShift P)^[k] y) : x = y := by
  have hxor : (crcShift P)^[k] (x ^^^ y) = 0 := by
    rw [iterate_crcShift_xor, h, Nat.xor_self]
  have hzero := iterate_crcShift_eq_zero hP htop (Nat.xor_lt_two_pow hx hy) hxor
  exact Nat.xor_eq_zero_iff.1 hzero

/-! ### Byte strings -/

/-- A byte string as a number, the first byte lowest. -/
def leNat : List UInt8 → ℕ
  | [] => 0
  | b :: bs => b.toNat ^^^ leNat bs <<< 8

/-- The bits of a byte, lowest first. -/
def byteBits (b : UInt8) : List Bool := (List.range 8).map b.toNat.testBit

/-- One bit of data. -/
def crcFeedBit (P crc : ℕ) (bit : Bool) : ℕ := crcShift P (crc ^^^ bit.toNat)

/-- The register after a byte string, bit by bit. -/
def crcFeed (P crc : ℕ) (bs : List UInt8) : ℕ := (bs.flatMap byteBits).foldl (crcFeedBit P) crc

/-- No byte leaves the register alone. -/
@[simp] lemma crcFeed_nil (P crc : ℕ) : crcFeed P crc [] = crc := rfl

/-- Two lists are fed one after the other. -/
lemma crcFeed_append (P crc : ℕ) (bs bs' : List UInt8) :
    crcFeed P crc (bs ++ bs') = crcFeed P (crcFeed P crc bs) bs' := by
  unfold crcFeed
  rw [List.flatMap_append, List.foldl_append]

/-- Bits one after the other are bits all at once. -/
lemma foldl_crcFeedBit (P crc x n : ℕ) :
    ((List.range n).map x.testBit).foldl (crcFeedBit P) crc =
      (crcShift P)^[n] (crc ^^^ x % 2 ^ n) := by
  induction n with
  | zero => simp [Nat.mod_one]
  | succ n ih =>
      have hmod : x % 2 ^ (n + 1) = x % 2 ^ n ^^^ (x.testBit n).toNat <<< n := by
        apply Nat.eq_of_testBit_eq
        intro i
        rw [Nat.testBit_xor, Nat.testBit_shiftLeft, Nat.testBit_mod_two_pow,
          Nat.testBit_mod_two_pow]
        rcases lt_trichotomy i n with h | rfl | h
        · simp [h, Nat.lt_succ_of_lt h, Nat.not_le.2 h]
        · cases x.testBit i <;> simp
        · have hpos : i - n ≠ 0 := by omega
          have hno : (x.testBit n).toNat.testBit (i - n) = false := by
            cases x.testBit n
            · simp
            · exact Nat.testBit_lt_two_pow (Nat.one_lt_two_pow hpos)
          simp [hno, show ¬ i < n + 1 by omega, show ¬ i < n by omega]
      rw [List.range_succ, List.map_append, List.foldl_append, ih, List.map_singleton,
        List.foldl_cons, List.foldl_nil, crcFeedBit, hmod, ← Nat.xor_assoc,
        Function.iterate_succ_apply', iterate_crcShift_xor P n _ (_ <<< n),
        iterate_crcShift_shiftLeft]

/-- One byte is added to the register and shifted out. -/
lemma crcFeed_cons (P crc : ℕ) (b : UInt8) (bs : List UInt8) :
    crcFeed P crc (b :: bs) = crcFeed P ((crcShift P)^[8] (crc ^^^ b.toNat)) bs := by
  have hb : b.toNat % 2 ^ 8 = b.toNat := Nat.mod_eq_of_lt b.toNat_lt
  unfold crcFeed
  rw [List.flatMap_cons, List.foldl_append]
  unfold byteBits
  rw [foldl_crcFeedBit, hb]

/-- **All at once.** -/
theorem crcFeed_eq (P crc : ℕ) (bs : List UInt8) :
    crcFeed P crc bs = (crcShift P)^[8 * bs.length] (crc ^^^ leNat bs) := by
  induction bs generalizing crc with
  | nil => simp [leNat]
  | cons b bs ih =>
      rw [crcFeed_cons, ih, leNat, ← Nat.xor_assoc, List.length_cons, Nat.mul_add_one,
        Function.iterate_add_apply]
      congr 1
      rw [iterate_crcShift_xor P 8 _ (_ <<< 8), iterate_crcShift_shiftLeft]

/-- A list of bytes, read as a number. -/
lemma leNat_lt (bs : List UInt8) : leNat bs < 2 ^ (8 * bs.length) := by
  induction bs with
  | nil => exact Nat.zero_lt_one
  | cons b bs ih =>
      have hb := b.toNat_lt
      rw [leNat, xor_shiftLeft_of_lt hb, List.length_cons, Nat.mul_add_one, Nat.add_comm (8 * _),
        pow_add]
      have := Nat.mul_le_mul_left (2 ^ 8) (Nat.succ_le_of_lt ih)
      rw [Nat.mul_succ] at this
      omega

/-- The bytes of the second list stand above those of the first. -/
lemma leNat_append (bs bs' : List UInt8) :
    leNat (bs ++ bs') = leNat bs ^^^ leNat bs' <<< (8 * bs.length) := by
  induction bs with
  | nil => simp [leNat]
  | cons b bs ih =>
      rw [List.cons_append, leNat, ih, leNat, Nat.shiftLeft_xor_distrib, ← Nat.shiftLeft_add,
        ← Nat.xor_assoc, List.length_cons, Nat.mul_add_one]

/-! ### What the register tells apart -/

/-- Lists of one length are told apart by their numbers. -/
lemma leNat_inj {as bs : List UInt8} (hlen : as.length = bs.length) (h : leNat as = leNat bs) :
    as = bs := by
  induction as generalizing bs with
  | nil => exact (List.eq_nil_of_length_eq_zero hlen.symm).symm
  | cons a as ih =>
      cases bs with
      | nil => exact absurd hlen (by simp)
      | cons b bs =>
          have ha := a.toNat_lt
          have hb := b.toNat_lt
          rw [leNat, leNat, xor_shiftLeft_of_lt ha, xor_shiftLeft_of_lt hb] at h
          have hfirst : a = b := UInt8.toNat_inj.1 (by omega)
          have hrest : leNat as = leNat bs := by
            rw [hfirst] at h
            exact Nat.eq_of_mul_eq_mul_left (Nat.two_pow_pos 8) (Nat.add_left_cancel h)
          rw [hfirst, ih (Nat.succ.inj hlen) hrest]

section Distinct

variable {n : ℕ} (hP : P < 2 ^ (n + 1)) (htop : P.testBit n = true)

include hP in
/-- The register keeps its width. -/
lemma crcFeed_lt {crc : ℕ} (hcrc : crc < 2 ^ (n + 1)) (bs : List UInt8) :
    crcFeed P crc bs < 2 ^ (n + 1) := by
  rw [crcFeed_eq]
  apply iterate_crcShift_lt hP
  refine Nat.xor_lt_two_pow ?_ ?_
  · exact Nat.lt_of_lt_of_le hcrc (Nat.pow_le_pow_right (by decide) (Nat.le_add_right _ _))
  · exact Nat.lt_of_lt_of_le (leNat_lt bs) (Nat.pow_le_pow_right (by decide) (Nat.le_add_left _ _))

include hP htop

/-- The same bytes keep different registers apart. -/
lemma crcFeed_inj_left {x y : ℕ} (hx : x < 2 ^ (n + 1)) (hy : y < 2 ^ (n + 1)) {bs : List UInt8}
    (h : crcFeed P x bs = crcFeed P y bs) : x = y := by
  rw [crcFeed_eq, crcFeed_eq, iterate_crcShift_xor, iterate_crcShift_xor] at h
  exact iterate_crcShift_inj hP htop hx hy (Nat.xor_left_inj.1 h)

/-- Different strings that fit into the register are told apart. -/
lemma crcFeed_inj_right {x : ℕ} (hx : x < 2 ^ (n + 1)) {as bs : List UInt8}
    (hlen : as.length = bs.length) (hfit : 8 * as.length ≤ n + 1)
    (h : crcFeed P x as = crcFeed P x bs) : as = bs := by
  have hlt : ∀ cs : List UInt8, cs.length = as.length → x ^^^ leNat cs < 2 ^ (n + 1) := by
    intro cs hcs
    refine Nat.xor_lt_two_pow hx (Nat.lt_of_lt_of_le (leNat_lt cs) ?_)
    exact Nat.pow_le_pow_right (by decide) (by rw [hcs]; exact hfit)
  rw [crcFeed_eq, crcFeed_eq, hlen] at h
  have hxor := iterate_crcShift_inj hP htop (hlt as rfl) (hlt bs hlen.symm) h
  exact leNat_inj hlen (Nat.xor_right_inj.1 hxor)

/-- **Bursts.** A window no longer than the register is told apart inside any string. -/
theorem crcFeed_window_inj {x : ℕ} (hx : x < 2 ^ (n + 1)) {as bs : List UInt8}
    (pre post : List UInt8) (hlen : as.length = bs.length) (hfit : 8 * as.length ≤ n + 1)
    (h : crcFeed P x (pre ++ as ++ post) = crcFeed P x (pre ++ bs ++ post)) : as = bs := by
  rw [crcFeed_append, crcFeed_append, crcFeed_append, crcFeed_append] at h
  have hpre := crcFeed_lt hP hx pre
  have hmid := crcFeed_inj_left hP htop (crcFeed_lt hP hpre as) (crcFeed_lt hP hpre bs) h
  exact crcFeed_inj_right hP htop hpre hlen hfit hmid

end Distinct

end Endfields.Lib
