import Mathlib

/-!
# Byte memories with little-endian words

The memory of a mapped file is a function from addresses to bytes. This file has the machine
operations on it and the laws the rest of the development uses:

* `load m a w` and `store m a w v`: the `w`-byte little-endian word at `a`
  (`load_store_self`, `load_store_of_disjoint`, `load_lt`).
* `memset`, `memmove`, `readBytes` and `writeBytes`: runs of bytes.
* **Frames.** A word or a run of bytes depends on its own bytes only (`load_congr`,
  `readBytes_congr`); each operation is described pointwise (`store_apply_of_outside`, …), so that
  a frame argument is a comparison of addresses, which `omega` settles.
-/

namespace Endfields.Lib

/-- A byte memory: the bytes of a mapping, addressed from its first byte. -/
abbrev Mem := ℕ → UInt8

/-- The little-endian word of `w` bytes at address `a`. -/
def load (m : Mem) (a : ℕ) : ℕ → ℕ
  | 0 => 0
  | w + 1 => (m a).toNat + 256 * load m (a + 1) w

/-- Overwrite the `w` bytes at `a` with the little-endian bytes of `v`. -/
def store (m : Mem) (a w v : ℕ) : Mem := fun x =>
  if a ≤ x ∧ x < a + w then UInt8.ofNat (v / 256 ^ (x - a)) else m x

/-- Fill the `n` bytes at `a` with `b`. -/
def memset (m : Mem) (a : ℕ) (b : UInt8) (n : ℕ) : Mem := fun x =>
  if a ≤ x ∧ x < a + n then b else m x

/-- Copy `n` bytes from `src` to `dst`; the ranges may overlap. -/
def memmove (m : Mem) (dst src n : ℕ) : Mem := fun x =>
  if dst ≤ x ∧ x < dst + n then m (src + (x - dst)) else m x

/-- The `n` bytes at `a`. -/
def readBytes (m : Mem) (a : ℕ) : ℕ → List UInt8
  | 0 => []
  | n + 1 => m a :: readBytes m (a + 1) n

/-- Overwrite the bytes at `a` with the list `bs`. -/
def writeBytes (m : Mem) (a : ℕ) (bs : List UInt8) : Mem := fun x =>
  if a ≤ x ∧ x < a + bs.length then bs.getD (x - a) 0 else m x

/-- The `w` little-endian bytes of a number. -/
def leBytes (w v : ℕ) : List UInt8 := readBytes (store (fun _ => 0) 0 w v) 0 w

/-! ## Reading words -/

/-- A word depends on its own bytes only. -/
lemma load_congr {m m' : Mem} {a w : ℕ} (h : ∀ x, a ≤ x → x < a + w → m x = m' x) :
    load m a w = load m' a w := by
  induction w generalizing a with
  | zero => rfl
  | succ w ih =>
      rw [load, load, h a le_rfl (by omega), ih fun x hx hx' => h x (by omega) (by omega)]

/-- A word of `w` bytes is below `256 ^ w`. -/
lemma load_lt (m : Mem) (a w : ℕ) : load m a w < 256 ^ w := by
  induction w generalizing a with
  | zero => simp [load]
  | succ w ih =>
      have hb : (m a).toNat < 256 := (m a).toNat_lt
      have hr := ih (a + 1)
      rw [load, pow_succ]
      omega

/-- A memory whose bytes at `a` are the little-endian bytes of `v` loads `v`, up to the width. -/
lemma load_of_bytes {m : Mem} {a w v : ℕ}
    (h : ∀ k, k < w → m (a + k) = UInt8.ofNat (v / 256 ^ k)) : load m a w = v % 256 ^ w := by
  induction w generalizing a v with
  | zero => simp [load, Nat.mod_one]
  | succ w ih =>
      have h0 : m a = UInt8.ofNat v := by simpa using h 0 (by omega)
      have hrest : load m (a + 1) w = v / 256 % 256 ^ w := by
        apply ih
        intro k hk
        have hk' := h (k + 1) (by omega)
        rw [show a + 1 + k = a + (k + 1) by omega, hk', pow_succ', Nat.div_div_eq_div_mul]
      rw [load, h0, hrest, pow_succ', Nat.mod_mul]
      simp

/-! ## Stores -/

/-- A store leaves the bytes outside its word alone. -/
lemma store_apply_of_outside {m : Mem} {a w v x : ℕ} (h : x < a ∨ a + w ≤ x) :
    store m a w v x = m x := by
  unfold store
  rw [if_neg (by omega)]

/-- A word read back where it was stored is the stored value, up to the width. -/
@[simp] lemma load_store_self (m : Mem) (a w v : ℕ) :
    load (store m a w v) a w = v % 256 ^ w := by
  apply load_of_bytes
  intro k hk
  unfold store
  rw [if_pos (by omega), Nat.add_sub_cancel_left]

/-- A store does not change a word it does not overlap. -/
lemma load_store_of_disjoint {m : Mem} {a w v b w' : ℕ} (h : a + w ≤ b ∨ b + w' ≤ a) :
    load (store m a w v) b w' = load m b w' := by
  apply load_congr
  intro x hx hx'
  exact store_apply_of_outside (by omega)

/-! ## Runs of bytes -/

/-- `memset` leaves the bytes outside its region alone. -/
lemma memset_apply_of_outside {m : Mem} {a n x : ℕ} {b : UInt8} (h : x < a ∨ a + n ≤ x) :
    memset m a b n x = m x := by
  unfold memset
  rw [if_neg (by omega)]

/-- `memset` sets the bytes of its region. -/
lemma memset_apply_of_inside {m : Mem} {a n x : ℕ} {b : UInt8} (h : a ≤ x) (h' : x < a + n) :
    memset m a b n x = b := by
  unfold memset
  rw [if_pos ⟨h, h'⟩]

/-- `memmove` leaves the bytes outside its region alone. -/
lemma memmove_apply_of_outside {m : Mem} {dst src n x : ℕ} (h : x < dst ∨ dst + n ≤ x) :
    memmove m dst src n x = m x := by
  unfold memmove
  rw [if_neg (by omega)]

/-- `memmove` copies the bytes of its region. -/
lemma memmove_apply_of_inside {m : Mem} {dst src n x : ℕ} (h : x < n) :
    memmove m dst src n (dst + x) = m (src + x) := by
  unfold memmove
  rw [if_pos (by omega), Nat.add_sub_cancel_left]

/-- Written bytes leave those outside alone. -/
lemma writeBytes_apply_of_outside {m : Mem} {a x : ℕ} {bs : List UInt8}
    (h : x < a ∨ a + bs.length ≤ x) : writeBytes m a bs x = m x := by
  unfold writeBytes
  rw [if_neg (by omega)]

/-- A fill is a copy of a constant run. -/
lemma memset_eq_writeBytes (m : Mem) (a n : ℕ) (b : UInt8) :
    memset m a b n = writeBytes m a (List.replicate n b) := by
  funext x
  unfold memset writeBytes
  rw [List.length_replicate]
  split_ifs with hx
  · rw [List.getD_eq_getElem _ _ (by rw [List.length_replicate]; omega), List.getElem_replicate]
  · rfl

/-- A byte written over itself. -/
lemma writeBytes_self (m : Mem) (a : ℕ) : writeBytes m a [m a] = m := by
  funext x
  unfold writeBytes
  split_ifs with hx
  · obtain rfl : x = a := by
      simp only [List.length_singleton] at hx
      omega
    simp
  · rfl

/-- A word of a zeroed run is zero. -/
lemma load_eq_zero {m : Mem} {a w : ℕ} (h : ∀ x, a ≤ x → x < a + w → m x = 0) :
    load m a w = 0 := by
  induction w generalizing a with
  | zero => rfl
  | succ w ih =>
      rw [load, h a le_rfl (by omega), ih fun x hx hx' => h x (by omega) (by omega)]
      rfl

/-- A run of bytes depends on its own bytes only. -/
lemma readBytes_congr {m m' : Mem} {a n : ℕ} (h : ∀ x, a ≤ x → x < a + n → m x = m' x) :
    readBytes m a n = readBytes m' a n := by
  induction n generalizing a with
  | zero => rfl
  | succ n ih =>
      rw [readBytes, readBytes, h a le_rfl (by omega),
        ih fun x hx hx' => h x (by omega) (by omega)]

/-- As many bytes are read as asked for. -/
@[simp] lemma length_readBytes (m : Mem) (a n : ℕ) : (readBytes m a n).length = n := by
  induction n generalizing a with
  | zero => rfl
  | succ n ih => simp [readBytes, ih]

/-- Byte `k` of a run is the byte at `a + k`. -/
@[simp] lemma getElem_readBytes (m : Mem) (a n k : ℕ) (hk : k < (readBytes m a n).length) :
    (readBytes m a n)[k] = m (a + k) := by
  induction n generalizing a k with
  | zero => simp [readBytes] at hk
  | succ n ih =>
      cases k with
      | zero => rfl
      | succ k =>
          simp only [readBytes, List.getElem_cons_succ]
          rw [ih, show a + 1 + k = a + (k + 1) by omega]

/-- A run that is filled with one byte. -/
lemma readBytes_eq_replicate {m : Mem} {a n : ℕ} {b : UInt8}
    (h : ∀ x, a ≤ x → x < a + n → m x = b) : readBytes m a n = List.replicate n b := by
  apply List.ext_getElem
  · simp
  · intro k hk hk'
    rw [getElem_readBytes, List.getElem_replicate]
    exact h _ (by omega) (by simp at hk; omega)

/-- A list written at `a` and read back. -/
@[simp] lemma readBytes_writeBytes_self (m : Mem) (a : ℕ) (bs : List UInt8) :
    readBytes (writeBytes m a bs) a bs.length = bs := by
  apply List.ext_getElem
  · simp
  · intro k hk hk'
    rw [getElem_readBytes]
    unfold writeBytes
    rw [if_pos (by omega), Nat.add_sub_cancel_left]
    simp [hk']

/-- A list written at distance `k` into a run replaces that part of the run. -/
lemma readBytes_writeBytes_sub (m : Mem) (a n k : ℕ) (bs : List UInt8) (h : k + bs.length ≤ n) :
    readBytes (writeBytes m (a + k) bs) a n =
      (readBytes m a n).take k ++ bs ++ (readBytes m a n).drop (k + bs.length) := by
  apply List.ext_getElem
  · simp
    omega
  · intro j hj hj'
    rw [getElem_readBytes]
    unfold writeBytes
    simp only [length_readBytes] at hj
    by_cases hlow : j < k
    · rw [if_neg (by omega), List.getElem_append_left (by simp; omega),
        List.getElem_append_left (by simp; omega)]
      simp
    · by_cases hmid : j < k + bs.length
      · rw [if_pos (by omega), List.getElem_append_left (by simp; omega),
          List.getElem_append_right (by simp; omega)]
        have hidx : a + j - (a + k) = j - min k n := by omega
        simp [hidx, List.getD_eq_getElem?_getD]
        rw [List.getElem?_eq_getElem (by omega)]
        simp
      · rw [if_neg (by omega), List.getElem_append_right (by simp; omega)]
        simp only [List.getElem_drop, getElem_readBytes]
        congr 1
        simp
        omega

/-! ## Words inside runs of bytes -/

/-- A word of `w` bytes. -/
@[simp] lemma length_leBytes (w v : ℕ) : (leBytes w v).length = w := by simp [leBytes]

/-- The bytes of a word. -/
lemma getElem_leBytes (w v k : ℕ) (hk : k < (leBytes w v).length) :
    (leBytes w v)[k] = UInt8.ofNat (v / 256 ^ k) := by
  rw [length_leBytes] at hk
  simp only [leBytes, getElem_readBytes, Nat.zero_add]
  unfold store
  rw [if_pos (by omega), Nat.sub_zero]

/-- A word whose bytes stand in a run is loaded from there. -/
lemma load_of_readBytes {m : Mem} {a n w v : ℕ} (pre : List UInt8) {post : List UInt8}
    (h : readBytes m a n = pre ++ leBytes w v ++ post) :
    load m (a + pre.length) w = v % 256 ^ w := by
  have hlen : n = pre.length + w + post.length := by
    have hl := congrArg List.length h
    simp only [length_readBytes, List.length_append, length_leBytes] at hl
    exact hl
  apply load_of_bytes
  intro k hk
  have hidx : pre.length + k < (readBytes m a n).length := by
    rw [length_readBytes]
    omega
  have hget := getElem_readBytes m a n (pre.length + k) hidx
  rw [← Nat.add_assoc] at hget
  rw [← hget, ← getElem_leBytes w v k (by simpa using hk)]
  simp only [h]
  rw [List.getElem_append_left (by simp; omega), List.getElem_append_right (by omega)]
  simp

/-- A word in its range whose bytes stand in a run is loaded as it is. -/
lemma load_of_readBytes_of_lt {m : Mem} {a n w v : ℕ} (pre : List UInt8) {post : List UInt8}
    (hv : v < 256 ^ w) (h : readBytes m a n = pre ++ leBytes w v ++ post) : load m
        (a + pre.length) w = v :=
  (load_of_readBytes pre h).trans (Nat.mod_eq_of_lt hv)

/-- The first of the bytes read. -/
lemma readBytes_take (m : Mem) (a n k : ℕ) (h : k ≤ n) :
    (readBytes m a n).take k = readBytes m a k := by
  apply List.ext_getElem
  · simp
    omega
  · intro j hj hj'
    simp

/-- Reading on from where a reading ends. -/
lemma readBytes_add (m : Mem) (a n k : ℕ) :
    readBytes m a (n + k) = readBytes m a n ++ readBytes m (a + n) k := by
  induction n generalizing a with
  | zero => simp [readBytes]
  | succ n ih =>
      rw [Nat.add_right_comm, readBytes, readBytes, ih, List.cons_append]
      congr 3
      omega

/-- Loading on from where a word ends. -/
lemma load_add (m : Mem) (a w k : ℕ) :
    load m a (w + k) = load m a w + 256 ^ w * load m (a + w) k := by
  induction w generalizing a with
  | zero => simp [load]
  | succ w ih =>
      have hstep : load m (a + 1) (w + k) =
          load m (a + 1) w + 256 ^ w * load m (a + (w + 1)) k := by
        rw [ih, show a + 1 + w = a + (w + 1) by omega]
      rw [Nat.add_right_comm, load, load, hstep, pow_succ]
      ring

/-- The first bytes of a word are those of a shorter one. -/
lemma take_leBytes {w k : ℕ} (v : ℕ) (h : k ≤ w) : (leBytes w v).take k = leBytes k v := by
  refine List.ext_getElem ?_ fun j hj hj' => ?_
  · rw [List.length_take, length_leBytes, length_leBytes, min_eq_left h]
  · rw [List.getElem_take, getElem_leBytes, getElem_leBytes]

/-- A byte of a word that was read. -/
lemma ofNat_load_div (m : Mem) {a w k : ℕ} (hk : k < w) :
    UInt8.ofNat (load m a w / 256 ^ k) = m (a + k) := by
  induction k generalizing a w with
  | zero =>
      obtain ⟨w, rfl⟩ : ∃ j, w = j + 1 := ⟨w - 1, by omega⟩
      rw [Nat.add_zero a, load, Nat.pow_zero, Nat.div_one]
      apply UInt8.toNat_inj.mp
      have hlt := (m a).toNat_lt
      rw [UInt8.toNat_ofNat']
      omega
  | succ k ih =>
      obtain ⟨w, rfl⟩ : ∃ j, w = j + 1 := ⟨w - 1, by omega⟩
      have hlt := (m a).toNat_lt
      have hdiv : load m a (w + 1) / 256 = load m (a + 1) w := by
        rw [load]
        omega
      rw [pow_succ', ← Nat.div_div_eq_div_mul, hdiv, ih (by omega)]
      congr 1
      omega

/-- The bytes of a word that was read. -/
lemma leBytes_load (m : Mem) (a w : ℕ) : leBytes w (load m a w) = readBytes m a w := by
  refine List.ext_getElem (by rw [length_leBytes, length_readBytes]) fun k hk hk' => ?_
  rw [getElem_leBytes, getElem_readBytes]
  rw [length_leBytes] at hk
  exact ofNat_load_div m hk

/-- A list that is its own shift by `c` repeats `c`. -/
lemma take_append_eq_self_iff {α : Type*} {c l : List α} {k : ℕ} (h : l.length = k * c.length) :
    (c ++ l).take l.length = l ↔ l = (List.replicate k c).flatten := by
  induction k generalizing l with
  | zero =>
      have hnil : l = [] := List.length_eq_zero_iff.mp (by rw [h, Nat.zero_mul])
      subst hnil
      simp
  | succ k ih =>
      obtain ⟨a, b, rfl, ha⟩ : ∃ a b, l = a ++ b ∧ a.length = c.length :=
        ⟨l.take c.length, l.drop c.length, (List.take_append_drop ..).symm, by
          rw [List.length_take, h, Nat.succ_mul]
          omega⟩
      have hb : b.length = k * c.length := by
        rw [List.length_append, ha, Nat.succ_mul] at h
        omega
      have hlen : (a ++ b).length = c.length + b.length := by rw [List.length_append, ha]
      rw [hlen, List.take_append, List.take_of_length_le (by omega),
        Nat.add_sub_cancel_left, List.replicate_succ, List.flatten_cons]
      constructor
      · intro heq
        obtain ⟨hca, hrest⟩ := List.append_inj heq ha.symm
        subst hca
        rw [(ih hb).mp hrest]
      · intro heq
        obtain ⟨hca, hrest⟩ := List.append_inj heq ha
        subst hca
        rw [(ih hb).mpr hrest]

/-! ### Moved runs -/

/-- A word depends on its bytes, wherever they are. -/
lemma load_shift {m m' : Mem} {a a' w : ℕ} (h : ∀ x, x < w → m' (a' + x) = m (a + x)) :
    load m' a' w = load m a w := by
  induction w generalizing a a' with
  | zero => rfl
  | succ w ih =>
      have h0 := h 0 (by omega)
      rw [Nat.add_zero, Nat.add_zero] at h0
      rw [load, load, h0, ih fun x hx => ?_]
      rw [show a' + 1 + x = a' + (x + 1) by omega, show a + 1 + x = a + (x + 1) by omega]
      exact h (x + 1) (by omega)

/-- Moved bytes are read the same at their new place. -/
lemma readBytes_shift {m m' : Mem} {a a' n : ℕ} (h : ∀ x, x < n → m' (a' + x) = m (a + x)) :
    readBytes m' a' n = readBytes m a n := by
  induction n generalizing a a' with
  | zero => rfl
  | succ n ih =>
      have h0 := h 0 (by omega)
      rw [Nat.add_zero, Nat.add_zero] at h0
      rw [readBytes, readBytes, h0, ih fun x hx => ?_]
      rw [show a' + 1 + x = a' + (x + 1) by omega, show a + 1 + x = a + (x + 1) by omega]
      exact h (x + 1) (by omega)

end Endfields.Lib
