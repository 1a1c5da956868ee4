import Endfields.Lib.CrcShift

/-!
# Carry-less multiplication and folding

A word is a polynomial with bits as coefficients, bit `i` for the power `i`. A step of the register
divides by the variable, modulo the odd polynomial `2 * P + 1`. Words longer than the register may
be reduced in any order; what is kept is the residue.

* `clmul` is the product without carries: linear in the left factor (`clmul_xor_left`), and shifted
  with it (`clmul_shiftLeft`).
* `CrcCong P` relates words with one residue: words that some number of steps make equal. It is kept
  by xor, by steps, by shifts and by products.
* **Folding** (`crcCong_clmul`): a product with the residue of `k` steps of `1` stands for `k`
  steps.
* **Exactness** (`CrcCong.eq_of_lt`): in a register that is not longer than the polynomial, words
  with one residue are equal.
* `joinBytes` builds a word from its bytes, for the byte shuffles of vector registers.
-/

namespace Endfields.Lib

/-! ### Products without carries -/

/-- The carry-less product of the low `w` bits of `a` with `b`. -/
def clmul : ℕ → ℕ → ℕ → ℕ
  | 0, _, _ => 0
  | w + 1, a, b => clmul w a b ^^^ if a.testBit w then b <<< w else 0

variable {P w k a b x y z : ℕ}

/-- The product with `0`. -/
lemma clmul_zero_right (w a : ℕ) : clmul w a 0 = 0 := by
  induction w with
  | zero => rfl
  | succ w ih =>
      rw [clmul, ih, Nat.zero_shiftLeft, ite_self]
      rfl

/-- A choice between a number and `0` is linear in the choice. -/
lemma xor_ite (p q : Bool) (b : ℕ) :
    (if (p ^^ q) = true then b else 0) =
      (if p = true then b else 0) ^^^ (if q = true then b else 0) := by
  cases p <;> cases q <;> simp

/-- The product is linear in its left factor. -/
lemma clmul_xor_left (w a a' b : ℕ) : clmul w (a ^^^ a') b = clmul w a b ^^^ clmul w a' b := by
  induction w with
  | zero => rw [clmul, clmul, clmul, Nat.xor_self]
  | succ w ih =>
      rw [clmul, clmul, clmul, ih, Nat.testBit_xor, xor_ite]
      generalize clmul w a b = u
      generalize clmul w a' b = v
      rw [Nat.xor_assoc, Nat.xor_assoc, Nat.xor_left_comm v]

/-- The product with `1` is cut to the width. -/
lemma clmul_one_right (w a : ℕ) : clmul w a 1 = a % 2 ^ w := by
  induction w with
  | zero => rw [clmul, pow_zero, Nat.mod_one]
  | succ w ih =>
      rw [clmul, ih]
      apply Nat.eq_of_testBit_eq
      intro i
      rw [Nat.testBit_xor, Nat.testBit_mod_two_pow, Nat.testBit_mod_two_pow]
      rcases lt_trichotomy i w with h | rfl | h
      · have hne : w ≠ i := Nat.ne_of_gt h
        cases a.testBit w <;> simp [h, Nat.lt_succ_of_lt h, Nat.one_shiftLeft, hne]
      · cases a.testBit i <;> simp [Nat.one_shiftLeft]
      · have hne : w ≠ i := Nat.ne_of_lt h
        have hi : ¬ i < w + 1 := by omega
        cases a.testBit w <;> simp [hi, Nat.not_lt.2 h.le, Nat.one_shiftLeft, hne]

/-- A product is as long as its factors together, less one bit. -/
lemma clmul_lt (w a : ℕ) {n : ℕ} (hb : b < 2 ^ (n + 1)) : clmul w a b < 2 ^ (w + n) := by
  induction w with
  | zero => exact Nat.two_pow_pos _
  | succ w ih =>
      have hle : 2 ^ (w + n) ≤ 2 ^ (w + 1 + n) := Nat.pow_le_pow_right (by decide) (by omega)
      refine Nat.xor_lt_two_pow (Nat.lt_of_lt_of_le ih hle) ?_
      split
      · rw [Nat.shiftLeft_eq, show w + 1 + n = n + 1 + w by omega, pow_add]
        exact Nat.mul_lt_mul_of_pos_right hb (Nat.two_pow_pos w)
      · exact Nat.two_pow_pos _

/-- A left factor without its low bits. -/
lemma clmul_shiftLeft (k w a b : ℕ) : clmul (k + w) (a <<< k) b = clmul w a b <<< k := by
  induction w with
  | zero =>
      rw [Nat.add_zero, clmul, Nat.zero_shiftLeft]
      have hlow : ∀ n, n ≤ k → clmul n (a <<< k) b = 0 := by
        intro n hn
        induction n with
        | zero => rfl
        | succ n ih =>
            rw [clmul, ih (by omega), Nat.testBit_shiftLeft]
            simp [Nat.not_le.2 hn]
      exact hlow k le_rfl
  | succ w ih =>
      rw [← Nat.add_assoc, clmul, ih, clmul, Nat.testBit_shiftLeft, Nat.shiftLeft_xor_distrib,
        Nat.add_sub_cancel_left]
      simp only [Nat.le_add_right, decide_true, Bool.true_and]
      split
      · rw [← Nat.shiftLeft_add, Nat.add_comm w k]
      · rw [Nat.zero_shiftLeft]

/-- Linear functions that agree on the powers of two agree. -/
lemma eq_of_two_pow {f g : ℕ → ℕ} (hf : ∀ a b, f (a ^^^ b) = f a ^^^ f b)
    (hg : ∀ a b, g (a ^^^ b) = g a ^^^ g b) (hpow : ∀ i, i < w → f (2 ^ i) = g (2 ^ i))
    (hx : x < 2 ^ w) : f x = g x := by
  have hzero : f 0 = g 0 := by
    rw [← Nat.xor_self 0, hf, hg, Nat.xor_self, Nat.xor_self]
  have hmod : ∀ a, f (a % 2 ^ w) = g (a % 2 ^ w) := by
    apply xor_induction
    · rw [Nat.zero_mod]
      exact hzero
    · intro i
      by_cases hi : i < w
      · rw [Nat.mod_eq_of_lt (Nat.pow_lt_pow_right (by decide) hi)]
        exact hpow i hi
      · have hdvd : 2 ^ w ∣ 2 ^ i := Nat.pow_dvd_pow 2 (Nat.not_lt.1 hi)
        rw [Nat.mod_eq_zero_of_dvd hdvd]
        exact hzero
    · intro a b ha hb
      rw [Nat.xor_mod_two_pow, hf, hg, ha, hb]
  have h := hmod x
  rwa [Nat.mod_eq_of_lt hx] at h

/-! ### Words with one residue -/

/-- The words have one residue: a number of steps makes them equal. -/
def CrcCong (P x y : ℕ) : Prop := ∃ m, (crcShift P)^[m] x = (crcShift P)^[m] y

namespace CrcCong

/-- Every register is congruent to itself. -/
lemma refl (P x : ℕ) : CrcCong P x x := ⟨0, rfl⟩

/-- The congruence is symmetric. -/
lemma symm (h : CrcCong P x y) : CrcCong P y x := by
  obtain ⟨m, hm⟩ := h
  exact ⟨m, hm.symm⟩

/-- Further steps keep words equal. -/
lemma later {m : ℕ} (h : (crcShift P)^[m] x = (crcShift P)^[m] y) (n : ℕ) :
    (crcShift P)^[n + m] x = (crcShift P)^[n + m] y := by
  rw [Function.iterate_add_apply, Function.iterate_add_apply, h]

/-- The congruence is transitive. -/
lemma trans (h : CrcCong P x y) (h' : CrcCong P y z) : CrcCong P x z := by
  obtain ⟨m, hm⟩ := h
  obtain ⟨n, hn⟩ := h'
  refine ⟨n + m, (later hm n).trans ?_⟩
  rw [Nat.add_comm]
  exact later hn m

/-- The congruence is kept by sums. -/
lemma xor {x' y' : ℕ} (h : CrcCong P x y) (h' : CrcCong P x' y') : CrcCong P (x ^^^ x') (y ^^^ y') := by
  obtain ⟨m, hm⟩ := h
  obtain ⟨n, hn⟩ := h'
  refine ⟨n + m, ?_⟩
  rw [iterate_crcShift_xor, iterate_crcShift_xor, later hm, Nat.add_comm, later hn]

/-- The congruence is kept by shifts. -/
lemma iterate (h : CrcCong P x y) (k : ℕ) : CrcCong P ((crcShift P)^[k] x) ((crcShift P)^[k] y) := by
  obtain ⟨m, hm⟩ := h
  refine ⟨m, ?_⟩
  rw [← Function.iterate_add_apply, ← Function.iterate_add_apply, Nat.add_comm]
  exact later hm k

/-- Congruent after `k` shifts means congruent before. -/
lemma of_iterate (h : CrcCong P ((crcShift P)^[k] x) ((crcShift P)^[k] y)) : CrcCong P x y := by
  obtain ⟨m, hm⟩ := h
  refine ⟨m + k, ?_⟩
  rw [Function.iterate_add_apply, Function.iterate_add_apply]
  exact hm

/-- The congruence is kept by shifts to the left. -/
lemma shiftLeft (h : CrcCong P x y) (k : ℕ) : CrcCong P (x <<< k) (y <<< k) := by
  apply of_iterate (k := k)
  rwa [iterate_crcShift_shiftLeft, iterate_crcShift_shiftLeft]

/-- **Exactness.** -/
lemma eq_of_lt {n : ℕ} (hP : P < 2 ^ (n + 1)) (htop : P.testBit n = true) (hx : x < 2 ^ (n + 1))
    (hy : y < 2 ^ (n + 1)) (h : CrcCong P x y) : x = y := by
  obtain ⟨m, hm⟩ := h
  exact iterate_crcShift_inj hP htop hx hy hm

end CrcCong

/-- Steps and shifts may be taken in any order. -/
lemma crcCong_iterate_shiftLeft (P k n x : ℕ) :
    CrcCong P ((crcShift P)^[k] x <<< n) ((crcShift P)^[k] (x <<< n)) := by
  apply CrcCong.of_iterate (k := n)
  rw [iterate_crcShift_shiftLeft, ← Function.iterate_add_apply, Nat.add_comm,
    Function.iterate_add_apply, iterate_crcShift_shiftLeft]
  exact .refl P _

/-- A product depends on the residue of its right factor. -/
lemma CrcCong.clmul (w a : ℕ) (h : CrcCong P x y) : CrcCong P (clmul w a x) (clmul w a y) := by
  induction w with
  | zero => exact .refl P 0
  | succ w ih =>
      refine ih.xor ?_
      split
      · exact h.shiftLeft w
      · exact .refl P 0

/-- Steps of a factor are steps of the product. -/
lemma crcCong_clmul_iterate (P k w a b : ℕ) :
    CrcCong P (clmul w a ((crcShift P)^[k] b)) ((crcShift P)^[k] (clmul w a b)) := by
  induction w with
  | zero =>
      rw [clmul, clmul, iterate_crcShift_zero]
      exact .refl P 0
  | succ w ih =>
      rw [clmul, clmul, iterate_crcShift_xor]
      refine ih.xor ?_
      split
      · exact crcCong_iterate_shiftLeft P k w b
      · rw [iterate_crcShift_zero]
        exact .refl P 0

/-- **Folding.** -/
lemma crcCong_clmul {r : ℕ} (hr : CrcCong P r ((crcShift P)^[k] 1)) (ha : a < 2 ^ w) :
    CrcCong P (clmul w a r) ((crcShift P)^[k] a) := by
  have hfold := (hr.clmul w a).trans (crcCong_clmul_iterate P k w a 1)
  rwa [clmul_one_right, Nat.mod_eq_of_lt ha] at hfold

/-! ### Words and their bytes -/

/-- Byte `i` of a word. -/
def byteOf (x i : ℕ) : ℕ := (x >>> (8 * i)) % 256

/-- The word with the bytes `f 0` to `f (n - 1)`. -/
def joinBytes (f : ℕ → ℕ) : ℕ → ℕ
  | 0 => 0
  | n + 1 => joinBytes f n ^^^ f n <<< (8 * n)

variable {f : ℕ → ℕ} {i j n c : ℕ}

/-- A byte, bit by bit. -/
lemma testBit_byteOf (x i j : ℕ) : (byteOf x i).testBit j =
    (decide (j < 8) && x.testBit (8 * i + j)) := by
  unfold byteOf
  rw [show 256 = 2 ^ 8 from rfl, Nat.testBit_mod_two_pow, Nat.testBit_shiftRight]

/-- A byte is less than 256. -/
lemma byteOf_lt (x i : ℕ) : byteOf x i < 256 := Nat.mod_lt _ (by decide)

/-- The joined number depends on its bytes alone. -/
lemma joinBytes_congr {g : ℕ → ℕ} (h : ∀ i, i < n → f i = g i) : joinBytes f n = joinBytes g n := by
  induction n with
  | zero => rfl
  | succ n ih =>
      rw [joinBytes, joinBytes, h n (Nat.lt_succ_self n)]
      rw [ih fun i hi => h i (Nat.lt_succ_of_lt hi)]

/-- The joined number, bit by bit. -/
lemma testBit_joinBytes (hf : ∀ i, i < n → f i < 256) (j : ℕ) :
    (joinBytes f n).testBit j = (decide (j < 8 * n) && (f (j / 8)).testBit (j % 8)) := by
  induction n with
  | zero => simp [joinBytes]
  | succ n ih =>
      rw [joinBytes, Nat.testBit_xor, ih fun i hi => hf i (Nat.lt_succ_of_lt hi), Nat.testBit_shiftLeft]
      rcases Nat.lt_or_ge j (8 * n) with h | h
      · simp [h, Nat.not_le.2 h, show j < 8 * (n + 1) by omega]
      · rcases Nat.lt_or_ge j (8 * (n + 1)) with h' | h'
        · simp [h, h', Nat.not_lt.2 h, show j / 8 = n by omega, show j - 8 * n = j % 8 by omega]
        · have hbit : (f n).testBit (j - 8 * n) = false := by
            apply Nat.testBit_lt_two_pow
            refine Nat.lt_of_lt_of_le (hf n (Nat.lt_succ_self n)) ?_
            exact (Nat.pow_le_pow_right (by decide) (show 8 ≤ j - 8 * n by omega) : 2 ^ 8 ≤ _)
          simp [hbit, Nat.not_lt.2 h, Nat.not_lt.2 h']

/-- The bytes of a word, moved up by `c` places. -/
lemma joinBytes_up (x : ℕ) (hc : c ≤ n) :
    joinBytes (fun i => if i < c then 0 else byteOf x (i - c)) n =
      (x % 2 ^ (8 * (n - c))) <<< (8 * c) := by
  have hlt : ∀ i, i < n → (if i < c then 0 else byteOf x (i - c)) < 256 := by
    intro i _
    split
    · decide
    · exact byteOf_lt x _
  apply Nat.eq_of_testBit_eq
  intro j
  rw [testBit_joinBytes hlt, Nat.testBit_shiftLeft, Nat.testBit_mod_two_pow]
  by_cases hj : j / 8 < c
  · simp [hj, show ¬ 8 * c ≤ j by omega]
  · have hbit : 8 * (j / 8 - c) + j % 8 = j - 8 * c := by omega
    rw [if_neg hj, testBit_byteOf, hbit]
    by_cases hn : j < 8 * n
    · simp [hn, show 8 * c ≤ j by omega, show j - 8 * c < 8 * (n - c) by omega, Nat.mod_lt]
    · simp [hn, show ¬ j - 8 * c < 8 * (n - c) by omega]

/-- The bytes of a word, moved down by `c` places. -/
lemma joinBytes_down (hx : x < 2 ^ (8 * n)) (hc : c ≤ n) :
    joinBytes (fun i => if i < n - c then byteOf x (c + i) else 0) n = x >>> (8 * c) := by
  have hlt : ∀ i, i < n → (if i < n - c then byteOf x (c + i) else 0) < 256 := by
    intro i _
    split
    · exact byteOf_lt x _
    · decide
  apply Nat.eq_of_testBit_eq
  intro j
  rw [testBit_joinBytes hlt, Nat.testBit_shiftRight]
  by_cases hj : j / 8 < n - c
  · have hbit : 8 * (c + j / 8) + j % 8 = 8 * c + j := by omega
    rw [if_pos hj, testBit_byteOf, hbit]
    simp [show j < 8 * n by omega, Nat.mod_lt]
  · have hout : x.testBit (8 * c + j) = false := by
      apply Nat.testBit_lt_two_pow
      refine Nat.lt_of_lt_of_le hx ?_
      exact Nat.pow_le_pow_right (by decide) (by omega)
    rw [if_neg hj, hout]
    simp

/-- The low bytes of one word and the high bytes of another. -/
lemma joinBytes_blend (a : ℕ) (hb : b < 2 ^ (8 * n)) (hc : c ≤ n) :
    joinBytes (fun i => if i < c then byteOf a i else byteOf b i) n =
      a % 2 ^ (8 * c) ^^^ (b >>> (8 * c)) <<< (8 * c) := by
  have hlt : ∀ i, i < n → (if i < c then byteOf a i else byteOf b i) < 256 := by
    intro i _
    split
    · exact byteOf_lt a i
    · exact byteOf_lt b i
  apply Nat.eq_of_testBit_eq
  intro j
  have hbit : 8 * (j / 8) + j % 8 = j := Nat.div_add_mod j 8
  rw [testBit_joinBytes hlt, Nat.testBit_xor, Nat.testBit_mod_two_pow, Nat.testBit_shiftLeft,
    Nat.testBit_shiftRight]
  by_cases hj : j / 8 < c
  · rw [if_pos hj, testBit_byteOf, hbit]
    simp [show j < 8 * n by omega, show j < 8 * c by omega, show ¬ 8 * c ≤ j by omega, Nat.mod_lt]
  · rw [if_neg hj, testBit_byteOf, hbit, show 8 * c + (j - 8 * c) = j by omega]
    by_cases hn : j < 8 * n
    · simp [hn, show ¬ j < 8 * c by omega, show 8 * c ≤ j by omega, Nat.mod_lt]
    · have hout : b.testBit j = false := by
        apply Nat.testBit_lt_two_pow
        refine Nat.lt_of_lt_of_le hb ?_
        exact Nat.pow_le_pow_right (by decide) (Nat.not_lt.1 hn)
      simp [hn, hout, show ¬ j < 8 * c by omega]

end Endfields.Lib
