import Endfields.Model.LockWord
import Endfields.Model.SbLayout
import Mathlib.Tactic.IntervalCases

/-!
# The lock word under any interleaving

The hash capacity and the two lock bytes of a v5 superblock, changed by any number of processes, one
atomic access at a time.

* `LockRun s`: a state that is reached from any word, with no process in a call at first.
* `LockInv s`: at most one process holds a lock, its byte is set, a process that gives a lock back
  holds it, and the word has the capacity that was stored last; `LockInv.step`: every access keeps
  it.
* **`LockRun.packed`**: no update is lost, in any interleaving.
* `lockWord`: the word in an image; the lock functions of one handle make the same updates
  (`Db.efSbQueueLockAcquire_update`, `Db.efSbIndexWriteLockAcquire_update`,
  `Db.efSbLockRelease_update`, `Db.efSbHashCapacityStore_update`).
-/

namespace Endfields.Model

open Endfields.Lib

/-! ### The fields of the word -/

section Fields

variable {word : BitVec 32} {k l i : ℕ} {value : BitVec 8} {cap : BitVec 16}

/-- The mask of one byte, bit by bit. -/
lemma getLsbD_byteMask (i : ℕ) : (0xFF#32).getLsbD i = decide (i < 8) := by
  by_cases h : i < 32
  · interval_cases i <;> rfl
  · rw [BitVec.getLsbD_of_ge _ _ (by omega), eq_comm, decide_eq_false_iff_not]
    omega

/-- The mask of the two lock bytes, bit by bit. -/
lemma getLsbD_highMask (i : ℕ) : (0xFFFF0000#32).getLsbD i = decide (16 ≤ i ∧ i < 32) := by
  by_cases h : i < 32
  · interval_cases i <;> rfl
  · rw [BitVec.getLsbD_of_ge _ _ (by omega), eq_comm, decide_eq_false_iff_not]
    omega

/-- The bits of a byte. -/
lemma getLsbD_efAtomicLoadU8 (hi : i < 8) :
    (efAtomicLoadU8 word k).getLsbD i = word.getLsbD (k * 8 + i) := by
  unfold efAtomicLoadU8
  rw [BitVec.getLsbD_setWidth, BitVec.getLsbD_and, BitVec.getLsbD_ushiftRight, getLsbD_byteMask]
  simp [hi]

/-- The bits of the word after the store of a byte. -/
lemma getLsbD_efAtomicStoreU8 (hi : i < 32) : (efAtomicStoreU8 word k value).getLsbD i =
    if k * 8 ≤ i ∧ i < k * 8 + 8 then value.getLsbD (i - k * 8) else word.getLsbD i := by
  unfold efAtomicStoreU8
  rw [BitVec.getLsbD_or, BitVec.getLsbD_and, BitVec.getLsbD_not, BitVec.getLsbD_shiftLeft,
    BitVec.getLsbD_shiftLeft, BitVec.getLsbD_setWidth, getLsbD_byteMask]
  split_ifs with h
  · simp [hi, show ¬ i < k * 8 by omega, show i - k * 8 < 8 by omega, show i - k * 8 < 32 by omega]
  · by_cases hlow : i < k * 8
    · simp [hi, hlow]
    · have hzero : value.getLsbD (i - k * 8) = false := BitVec.getLsbD_of_ge _ _ (by omega)
      simp [hi, hzero, show ¬ i - k * 8 < 8 by omega]

/-- The bits of the word after the store of the capacity. -/
lemma getLsbD_storeCap16 (hi : i < 32) : (storeCap16 word cap).getLsbD i =
    if i < 16 then cap.getLsbD i else word.getLsbD i := by
  unfold storeCap16
  rw [BitVec.getLsbD_or, BitVec.getLsbD_and, BitVec.getLsbD_setWidth, getLsbD_highMask]
  split_ifs with h
  · simp [hi, show ¬ 16 ≤ i by omega]
  · simp [hi, show 16 ≤ i by omega]

/-- A stored byte is read back.
Source: `ef_atomic_unaligned.h`, `ef_atomic_store_u8` -/
lemma efAtomicLoadU8_store_self (hk : k < 4) :
    efAtomicLoadU8 (efAtomicStoreU8 word k value) k = value := by
  apply BitVec.eq_of_getLsbD_eq
  intro i hi
  rw [getLsbD_efAtomicLoadU8 hi, getLsbD_efAtomicStoreU8 (by omega), if_pos (by omega),
    Nat.add_sub_cancel_left]

/-- A stored byte leaves the other bytes alone.
Source: `ef_atomic_unaligned.h`, `ef_atomic_store_u8` -/
lemma efAtomicLoadU8_store_of_ne (hl : l < 4) (h : l ≠ k) :
    efAtomicLoadU8 (efAtomicStoreU8 word k value) l = efAtomicLoadU8 word l := by
  apply BitVec.eq_of_getLsbD_eq
  intro i hi
  rw [getLsbD_efAtomicLoadU8 hi, getLsbD_efAtomicLoadU8 hi, getLsbD_efAtomicStoreU8 (by omega),
    if_neg (by omega)]

/-- A lock byte leaves the capacity alone.
Source: `ef_atomic_unaligned.h`, `ef_atomic_store_u8` -/
lemma loadCap16_store (hk : 2 ≤ k) : loadCap16 (efAtomicStoreU8 word k value) = loadCap16 word := by
  apply BitVec.eq_of_getLsbD_eq
  intro i hi
  unfold loadCap16
  rw [BitVec.getLsbD_setWidth, BitVec.getLsbD_setWidth, getLsbD_efAtomicStoreU8 (by omega),
    if_neg (by omega)]

/-- The capacity leaves the lock bytes alone.
Source: `ef_sb_layout.c`, `ef_sb_hash_capacity_store` -/
lemma efAtomicLoadU8_storeCap16 (hk : 2 ≤ k) (hl : k < 4) :
    efAtomicLoadU8 (storeCap16 word cap) k = efAtomicLoadU8 word k := by
  apply BitVec.eq_of_getLsbD_eq
  intro i hi
  rw [getLsbD_efAtomicLoadU8 hi, getLsbD_efAtomicLoadU8 hi, getLsbD_storeCap16 (by omega),
    if_neg (by omega)]

/-- A stored capacity is read back.
Source: `ef_sb_layout.c`, `ef_sb_hash_capacity_store` -/
lemma loadCap16_storeCap16 : loadCap16 (storeCap16 word cap) = cap := by
  apply BitVec.eq_of_getLsbD_eq
  intro i hi
  unfold loadCap16
  rw [BitVec.getLsbD_setWidth, getLsbD_storeCap16 (by omega), if_pos hi]
  simp [hi]

/-- The stored capacity is cut at 65535.
Source: `ef_sb_layout.c`, `ef_sb_hash_capacity_store` -/
lemma toNat_cap16 (hashCapacity : ℕ) : (cap16 hashCapacity).toNat = min hashCapacity 0xFFFF := by
  unfold cap16
  rw [BitVec.toNat_ofNat]
  split_ifs
  · omega
  · omega

/-- A capacity that the word has is stored as it is. -/
lemma cap16_toNat (cap : BitVec 16) : cap16 cap.toNat = cap := by
  apply BitVec.eq_of_toNat_eq
  rw [toNat_cap16]
  have hlt := cap.isLt
  omega

end Fields

/-! ### The accesses -/

namespace LockByte

variable {lock lock' : LockByte}

/-- The lock bytes lie behind the capacity. -/
lemma alignOff_ge (lock : LockByte) : 2 ≤ lock.alignOff := by cases lock <;> decide

/-- The lock bytes lie in the word. -/
lemma alignOff_lt (lock : LockByte) : lock.alignOff < 4 := by cases lock <;> decide

/-- The two locks are different bytes. -/
lemma alignOff_ne (h : lock' ≠ lock) : lock'.alignOff ≠ lock.alignOff := by
  cases lock <;> cases lock' <;> first | exact absurd rfl h | decide

end LockByte

namespace LockOp

variable {lock lock' : LockByte} {hashCapacity : ℕ} {word new : BitVec 32}

/-- An acquire finds the byte clear, and sets it. -/
lemma update_acquire (h : (acquire lock).update word = some new) :
    efAtomicLoadU8 word lock.alignOff = 0 ∧ new = efAtomicStoreU8 word lock.alignOff 1 := by
  change efAtomicCasU8 word lock.alignOff 0 1 = some new at h
  unfold efAtomicCasU8 at h
  split_ifs at h with hbyte
  · exact ⟨not_not.mp hbyte, (Option.some.inj h).symm⟩

/-- A release clears the byte of its lock. -/
lemma update_release (h : (release lock).update word = some new) :
    new = efAtomicStoreU8 word lock.alignOff 0 := (Option.some.inj h).symm

/-- A store of the capacity writes the cut capacity. -/
lemma update_hashCapacityStore (h : (hashCapacityStore hashCapacity).update word = some new) :
    new = storeCap16 word (cap16 hashCapacity) := (Option.some.inj h).symm

end LockOp

/-- A lock byte of the word. -/
def LockState.byte {π : Type*} (s : LockState π) (lock : LockByte) : BitVec 8 :=
  efAtomicLoadU8 s.loops.word lock.alignOff

/-- What holds in every state. -/
structure LockInv {π : Type*} (s : LockState π) : Prop where
  unique : ∀ lock p q, s.holds p lock = true → s.holds q lock = true → p = q
  taken : ∀ lock p, s.holds p lock = true → s.byte lock ≠ 0
  releasing : ∀ lock p, (s.loops.pc p).runs = some (.release lock) → s.holds p lock = true
  capacity : loadCap16 s.loops.word = cap16 s.stored

/-- The invariant holds when nobody holds a lock. -/
lemma lockInv_start {π : Type*} (word : BitVec 32) :
    LockInv (LockState.start word : LockState π) where
  unique _ _ _ h := by cases h
  taken _ _ h := by cases h
  releasing _ _ h := by cases h
  capacity := (cap16_toNat _).symm

variable {π : Type*} [DecidableEq π] {s s' : LockState π} {a : CasLoop.Action π LockOp}

/-- A step is allowed, and is one step of a compare-and-swap loop. -/
lemma LockState.step_cases (h : s.step a = some s') : s.Allowed a ∧
    ∃ e loops, CasLoop.step lockLoops s.loops a = some (e, loops) ∧ s' = s.after loops e := by
  unfold LockState.step at h
  split_ifs at h with hallowed
  obtain ⟨⟨e, loops⟩, hstep, rfl⟩ := Option.map_eq_some_iff.mp h
  exact ⟨hallowed, e, loops, hstep, rfl⟩

namespace LockInv

variable {p : π} {lock : LockByte} {hashCapacity : ℕ}

/-- A process moves on, the word and the locks stay. -/
lemma move (h : LockInv s) {pc : CasLoop.Pc LockOp (BitVec 32)}
    (hpc : ∀ lock, pc.runs = some (.release lock) → s.holds p lock = true) :
    LockInv { s with loops := s.loops.move p pc } where
  unique := h.unique
  taken := h.taken
  releasing lock q hq := by
    by_cases hqp : q = p
    · subst hqp
      rw [CasLoop.pc_move_self] at hq
      exact hpc lock hq
    · rw [CasLoop.pc_move_of_ne _ _ hqp] at hq
      exact h.releasing lock q hq
  capacity := h.capacity

/-- The end of a call leaves the process idle; the rest is a matter of the locks and of the word. -/
lemma finish {word : BitVec 32} {holds : π → LockByte → Bool} {stored : ℕ} (h : LockInv s)
    (hunique : ∀ l q r, holds q l = true → holds r l = true → q = r)
    (htaken : ∀ l q, holds q l = true → efAtomicLoadU8 word l.alignOff ≠ 0)
    (hothers : ∀ l q, q ≠ p → s.holds q l = true → holds q l = true)
    (hcap : loadCap16 word = cap16 stored) :
    LockInv
      { loops := { s.loops.move p .idle with word := word },
        holds := holds,
        stored := stored } where
  unique := hunique
  taken := htaken
  releasing l q hq := by
    change ((s.loops.move p .idle).pc q).runs = _ at hq
    by_cases hqp : q = p
    · subst hqp
      rw [CasLoop.pc_move_self] at hq
      cases hq
    · rw [CasLoop.pc_move_of_ne _ _ hqp] at hq
      exact hothers l q hqp (h.releasing l q hq)
  capacity := hcap

/-- **An acquire** finds the byte clear, so no process holds the lock. -/
lemma acquired (h : LockInv s) {new : BitVec 32}
    (hup : (LockOp.acquire lock).update s.loops.word = some new) :
    LockInv (s.after { s.loops.move p .idle with word := new } (.done p (.acquire lock))) := by
  obtain ⟨hclear, rfl⟩ := LockOp.update_acquire hup
  have hfree : ∀ q, s.holds q lock = false := by
    intro q
    by_contra hq
    exact h.taken lock q (by simpa using hq) hclear
  -- who holds what
  have hholds : ∀ q l, Function.update s.holds p (Function.update (s.holds p) lock true) q l = true →
      (q = p ∧ l = lock) ∨ (l ≠ lock ∧ s.holds q l = true) := by
    intro q l hq
    by_cases hl : l = lock
    · subst hl
      by_cases hqp : q = p
      · exact .inl ⟨hqp, rfl⟩
      · rw [Function.update_of_ne hqp, hfree q] at hq
        cases hq
    · refine .inr ⟨hl, ?_⟩
      by_cases hqp : q = p
      · subst hqp
        rwa [Function.update_self, Function.update_of_ne hl] at hq
      · rwa [Function.update_of_ne hqp] at hq
  refine h.finish ?_ ?_ ?_ ?_
  · intro l q r hq hr
    rcases hholds q l hq with ⟨rfl, rfl⟩ | ⟨hl, hq⟩
    · rcases hholds r l hr with ⟨rfl, -⟩ | ⟨hl, -⟩
      · rfl
      · exact absurd rfl hl
    · rcases hholds r l hr with ⟨-, rfl⟩ | ⟨-, hr⟩
      · exact absurd rfl hl
      · exact h.unique l q r hq hr
  · intro l q hq
    rcases hholds q l hq with ⟨-, rfl⟩ | ⟨hl, hq⟩
    · rw [efAtomicLoadU8_store_self l.alignOff_lt]
      decide
    · rw [efAtomicLoadU8_store_of_ne l.alignOff_lt (LockByte.alignOff_ne hl)]
      exact h.taken l q hq
  · intro l q hqp hq
    rwa [Function.update_of_ne hqp]
  · rw [loadCap16_store lock.alignOff_ge]
    exact h.capacity

/-- **A release** clears the byte of a lock that only its process holds. -/
lemma released (h : LockInv s) (hp : s.holds p lock = true) {new : BitVec 32}
    (hup : (LockOp.release lock).update s.loops.word = some new) :
    LockInv (s.after { s.loops.move p .idle with word := new } (.done p (.release lock))) := by
  obtain rfl := LockOp.update_release hup
  have hholds : ∀ q l, Function.update s.holds p (Function.update (s.holds p) lock false) q l = true →
      l ≠ lock ∧ s.holds q l = true := by
    intro q l hq
    by_cases hqp : q = p
    · subst hqp
      rw [Function.update_self] at hq
      have hl : l ≠ lock := by
        rintro rfl
        rw [Function.update_self] at hq
        cases hq
      rw [Function.update_of_ne hl] at hq
      exact ⟨hl, hq⟩
    · rw [Function.update_of_ne hqp] at hq
      refine ⟨?_, hq⟩
      rintro rfl
      exact hqp (h.unique l q p hq hp)
  refine h.finish ?_ ?_ ?_ ?_
  · intro l q r hq hr
    exact h.unique l q r (hholds q l hq).2 (hholds r l hr).2
  · intro l q hq
    obtain ⟨hl, hq⟩ := hholds q l hq
    rw [efAtomicLoadU8_store_of_ne l.alignOff_lt (LockByte.alignOff_ne hl)]
    exact h.taken l q hq
  · intro l q hqp hq
    rwa [Function.update_of_ne hqp]
  · rw [loadCap16_store lock.alignOff_ge]
    exact h.capacity

/-- **A store of the capacity** leaves the lock bytes alone. -/
lemma capacityStored (h : LockInv s) {new : BitVec 32}
    (hup : (LockOp.hashCapacityStore hashCapacity).update s.loops.word = some new) :
    LockInv (s.after { s.loops.move p .idle with word := new }
      (.done p (.hashCapacityStore hashCapacity))) := by
  obtain rfl := LockOp.update_hashCapacityStore hup
  refine h.finish h.unique ?_ (fun _ _ _ hq => hq) loadCap16_storeCap16
  intro l q hq
  rw [efAtomicLoadU8_storeCap16 l.alignOff_ge l.alignOff_lt]
  exact h.taken l q hq

/-- **The invariant is kept** by every access of every process. -/
lemma step (h : LockInv s) (hs : s.step a = some s') : LockInv s' := by
  obtain ⟨hallowed, e, loops, hstep, rfl⟩ := LockState.step_cases hs
  rcases CasLoop.step_cases hstep with ⟨p, op, rfl, -, rfl, rfl⟩ |
    ⟨p, op, pc, rfl, hruns, hpc, rfl, rfl⟩ | ⟨p, op, rfl, -, rfl, rfl⟩ |
    ⟨p, op, new, rfl, hruns, hup, rfl, rfl⟩
  · -- a call: a lock that is to be given back is held
    refine h.move ?_
    rintro lock hlock
    obtain rfl := Option.some.inj hlock
    exact hallowed
  · refine h.move ?_
    intro lock hlock
    rw [hpc] at hlock
    exact h.releasing lock p (hruns.trans hlock)
  · refine h.move ?_
    intro lock hlock
    cases hlock
  · cases op with
    | acquire lock => exact h.acquired hup
    | release lock => exact h.released (h.releasing lock p hruns) hup
    | hashCapacityStore hashCapacity => exact h.capacityStored hup

end LockInv

/-! ### Runs -/

/-- The states of the runs from any word. -/
inductive LockRun : LockState π → Prop where
  | start (word : BitVec 32) : LockRun (LockState.start word)
  | step {s s' : LockState π} (h : LockRun s) (a : CasLoop.Action π LockOp) (hs : s.step a = some s') :
      LockRun s'

/-- The invariant holds in every reachable state. -/
lemma LockRun.inv (h : LockRun s) : LockInv s := by
  induction h with
  | start word => exact lockInv_start word
  | step _ a hs ih => exact ih.step hs

/-- **A lock byte changes** only where a process takes the lock, or gives it back. -/
lemma byte_changed (h : LockInv s) (hs : s.step a = some s') {lock : LockByte}
    (hne : s'.byte lock ≠ s.byte lock) : ∃ p, a = .run p ∧
      (((s.loops.pc p).runs = some (.acquire lock) ∧ s'.holds p lock = true) ∨
        ((s.loops.pc p).runs = some (.release lock) ∧ s.holds p lock = true ∧
          s'.holds p lock = false)) := by
  obtain ⟨-, e, loops, hstep, rfl⟩ := LockState.step_cases hs
  rcases CasLoop.step_cases hstep with ⟨p, op, rfl, -, rfl, rfl⟩ |
    ⟨p, op, pc, rfl, hruns, hpc, rfl, rfl⟩ | ⟨p, op, rfl, -, rfl, rfl⟩ |
    ⟨p, op, new, rfl, hruns, hup, rfl, rfl⟩
  · exact absurd rfl hne
  · exact absurd rfl hne
  · exact absurd rfl hne
  refine ⟨p, rfl, ?_⟩
  cases op with
  | acquire l =>
      obtain ⟨-, rfl⟩ := LockOp.update_acquire hup
      by_cases hl : lock = l
      · subst hl
        refine .inl ⟨hruns, ?_⟩
        change Function.update s.holds p _ p lock = true
        rw [Function.update_self, Function.update_self]
      · exact absurd (efAtomicLoadU8_store_of_ne lock.alignOff_lt (LockByte.alignOff_ne hl)) hne
  | release l =>
      obtain rfl := LockOp.update_release hup
      by_cases hl : lock = l
      · subst hl
        refine .inr ⟨hruns, h.releasing lock p hruns, ?_⟩
        change Function.update s.holds p _ p lock = false
        rw [Function.update_self, Function.update_self]
      · exact absurd (efAtomicLoadU8_store_of_ne lock.alignOff_lt (LockByte.alignOff_ne hl)) hne
  | hashCapacityStore hashCapacity =>
      obtain rfl := LockOp.update_hashCapacityStore hup
      exact absurd (efAtomicLoadU8_storeCap16 lock.alignOff_ge lock.alignOff_lt) hne

/-- **The packed word loses no update**: in every state of every run, a lock has one holder at most,
the word has the capacity that was stored last (at most `0xFFFF`, as the store has it), and the next
access changes a lock byte only if it takes that lock or gives it back. -/
theorem LockRun.packed (h : LockRun s) :
    (∀ lock p q, s.holds p lock = true → s.holds q lock = true → p = q) ∧
      (loadCap16 s.loops.word).toNat = min s.stored 0xFFFF ∧
      ∀ a s', s.step a = some s' → ∀ lock, s'.byte lock ≠ s.byte lock → ∃ p, a = .run p ∧
        (((s.loops.pc p).runs = some (.acquire lock) ∧ s'.holds p lock = true) ∨
          ((s.loops.pc p).runs = some (.release lock) ∧ s.holds p lock = true ∧
            s'.holds p lock = false)) :=
  ⟨h.inv.unique, by rw [h.inv.capacity, toNat_cap16], fun _ _ hs _ hne => byte_changed h.inv hs hne⟩

/-! ### A race -/

/-- The accesses of a race: process `0` reads the word for the queue lock, process `1` takes the
index write lock and stores the capacity `64`, and process `0` fails to swap until both are done. -/
def raceActions : List (CasLoop.Action (Fin 2) LockOp) :=
  [.call 0 (.acquire .queue), .run 0, .call 1 (.acquire .indexWrite), .run 1, .run 1,
    .call 1 (.hashCapacityStore 64), .run 1, .run 0, .run 1, .run 0, .run 0]

/-- The state after the race. -/
def raced : LockState (Fin 2) :=
  (raceActions.foldlM LockState.step (LockState.start 0)).getD (LockState.start 0)

/-- A list of accesses, one after the other. -/
lemma LockRun.foldlM (h : LockRun s) {as : List (CasLoop.Action π LockOp)}
    (hs : as.foldlM LockState.step s = some s') : LockRun s' := by
  induction as generalizing s with
  | nil =>
      obtain rfl := Option.some.inj hs
      exact h
  | cons a as ih =>
      rw [List.foldlM_cons] at hs
      obtain ⟨t, ht, hrest⟩ := Option.bind_eq_some_iff.mp hs
      exact ih (h.step a ht) hrest

/-- The state of the race is reachable. -/
lemma lockRun_raced : LockRun raced := by
  unfold raced
  rcases hs : raceActions.foldlM LockState.step (LockState.start 0) with _ | s
  · exact .start 0
  · exact (LockRun.start 0).foldlM hs

/-- Neither the lock nor the capacity of process `1` is lost to the swap of process `0`. -/
theorem LockRun.packed_of_race :
    (raced.holds 0 .queue = true ∧ raced.holds 1 .indexWrite = true ∧ raced.stored = 64) ∧
      (loadCap16 raced.loops.word).toNat = min raced.stored 0xFFFF :=
  ⟨by decide +kernel, (LockRun.packed lockRun_raced).2.1⟩

/-! ### The word in an image -/

/-- The word at `sb->reserved[20]`. -/
def lockWord (m : Mem) : BitVec 32 := BitVec.ofNat 32 (load m 56 4)

section Image

variable {m : Mem} {k i v : ℕ}

/-- The bits of a little-endian number. -/
lemma testBit_load {a w : ℕ} (hk : k < w) (hi : i < 8) :
    (load m a w).testBit (k * 8 + i) = (m (a + k)).toNat.testBit i := by
  induction w generalizing a k with
  | zero => omega
  | succ w ih =>
      have hbyte : (m a).toNat < 2 ^ 8 := (m a).toNat_lt
      rw [load, Nat.add_comm, show (256 : ℕ) = 2 ^ 8 by norm_num, Nat.testBit_two_pow_mul_add _ hbyte]
      cases k with
      | zero => simp [hi]
      | succ k =>
          rw [if_neg (by omega), show (k + 1) * 8 + i - 8 = k * 8 + i by omega, ih (by omega),
            show a + 1 + k = a + (k + 1) by omega]

/-- The word at offset 56, read as four bytes of the memory. -/
lemma getLsbD_lockWord (hk : k < 4) (hi : i < 8) :
    (lockWord m).getLsbD (k * 8 + i) = (m (56 + k)).toNat.testBit i := by
  unfold lockWord
  rw [BitVec.getLsbD_ofNat, testBit_load hk hi, decide_eq_true (show k * 8 + i < 32 by omega)]
  rfl

/-- The byte of the word is that of the image. -/
lemma efAtomicLoadU8_lockWord (hk : k < 4) :
    efAtomicLoadU8 (lockWord m) k = BitVec.ofNat 8 (load m (56 + k) 1) := by
  apply BitVec.eq_of_getLsbD_eq
  intro i hi
  rw [getLsbD_efAtomicLoadU8 hi, getLsbD_lockWord hk hi, BitVec.getLsbD_ofNat, decide_eq_true hi]
  simp [load]

/-- The low bits of a number are those of its byte. -/
lemma testBit_ofNat (v : ℕ) (hi : i < 8) : (UInt8.ofNat v).toNat.testBit i = v.testBit i := by
  rw [UInt8.toNat_ofNat', Nat.testBit_mod_two_pow, decide_eq_true hi]
  rfl

/-- **The store of a byte** of the image is the store of a byte of the word. -/
lemma lockWord_store (hk : k < 4) :
    lockWord (store m (56 + k) 1 v) = efAtomicStoreU8 (lockWord m) k (BitVec.ofNat 8 v) := by
  apply BitVec.eq_of_getLsbD_eq
  intro j hj
  obtain ⟨l, i, hl, hi, rfl⟩ : ∃ l i, l < 4 ∧ i < 8 ∧ j = l * 8 + i :=
    ⟨j / 8, j % 8, by omega, by omega, by omega⟩
  rw [getLsbD_lockWord hl hi, getLsbD_efAtomicStoreU8 hj]
  unfold store
  by_cases hlk : l = k
  · subst hlk
    rw [if_pos (by omega), if_pos (by omega), BitVec.getLsbD_ofNat, testBit_ofNat _ hi,
      Nat.add_sub_cancel_left, Nat.sub_self, pow_zero, Nat.div_one, decide_eq_true hi]
    rfl
  · rw [if_neg (by omega), if_neg (by omega), getLsbD_lockWord hl hi]

/-- **The store of the capacity** in the image is that in the word. -/
lemma lockWord_setHashCap : lockWord (store m 56 2 v) = storeCap16 (lockWord m)
    (BitVec.ofNat 16 v) := by
  apply BitVec.eq_of_getLsbD_eq
  intro j hj
  obtain ⟨l, i, hl, hi, rfl⟩ : ∃ l i, l < 4 ∧ i < 8 ∧ j = l * 8 + i :=
    ⟨j / 8, j % 8, by omega, by omega, by omega⟩
  rw [getLsbD_lockWord hl hi, getLsbD_storeCap16 hj]
  unfold store
  by_cases hl2 : l < 2
  · have hpow : (256 : ℕ) ^ l = 2 ^ (l * 8) := by
      rw [Nat.mul_comm, pow_mul]
      norm_num
    rw [if_pos (by omega), if_pos (by omega), BitVec.getLsbD_ofNat, testBit_ofNat _ hi,
      Nat.add_sub_cancel_left, hpow, Nat.testBit_div_two_pow, Nat.add_comm i,
      decide_eq_true (show l * 8 + i < 16 by omega)]
    rfl
  · rw [if_neg (by omega), if_neg (by omega), getLsbD_lockWord hl hi]

/-- One round of an acquire, on an image. -/
lemma update_acquire_lockWord (lock : LockByte) :
    (LockOp.acquire lock).update (lockWord m) =
      if load m (56 + lock.alignOff) 1 ≠ 0 then none
      else some (lockWord (store m (56 + lock.alignOff) 1 1)) := by
  change efAtomicCasU8 (lockWord m) lock.alignOff 0 1 = _
  have hlt : load m (56 + lock.alignOff) 1 < 2 ^ 8 := load_lt m _ 1
  have hzero : efAtomicLoadU8 (lockWord m) lock.alignOff = 0 ↔
      load m (56 + lock.alignOff) 1 = 0 := by
    rw [efAtomicLoadU8_lockWord lock.alignOff_lt]
    constructor
    · intro h
      have hnat := congrArg BitVec.toNat h
      rw [BitVec.toNat_ofNat, Nat.mod_eq_of_lt hlt] at hnat
      exact hnat
    · intro h
      rw [h]
      rfl
  unfold efAtomicCasU8
  simp only [ne_eq, hzero, lockWord_store lock.alignOff_lt]
  rfl

end Image

namespace Db

variable {db : Db}

/-- A lost race writes nothing. -/
lemma mem_contended (db : Db) : db.contended.2.mem = db.mem := by
  unfold contended
  split <;> rfl

/-- **`ef_sb_queue_lock_acquire`** of one handle is the update of the loop, unless another process
keeps the lock through all rounds. -/
lemma efSbQueueLockAcquire_update (hs : ¬ db.sb.schemaVersion < schemaVersion)
    (hfree : db.contended.1 = false) (new : BitVec 32) :
    (LockOp.acquire .queue).update (lockWord db.mem) = some new ↔
      db.efSbQueueLockAcquire.1 = .ok ∧ lockWord db.efSbQueueLockAcquire.2.mem = new := by
  have hsb : db.contended.2.sb = db.sb := congrArg Superblock.read (mem_contended db)
  rw [update_acquire_lockWord]
  unfold efSbQueueLockAcquire
  simp only [hsb, hfree, Bool.false_eq_true, false_or]
  rw [if_neg hs]
  have hlock : load db.mem (56 + LockByte.queue.alignOff) 1 = db.sb.queueLock := rfl
  rw [hlock]
  split_ifs with hbusy
  · simp
  · rw [Option.some.injEq, ← mem_contended db]
    exact (and_iff_right rfl).symm

/-- **`ef_sb_index_write_lock_acquire`** likewise. -/
lemma efSbIndexWriteLockAcquire_update (hs : ¬ db.sb.schemaVersion < schemaVersion)
    (hfree : db.contended.1 = false) (new : BitVec 32) :
    (LockOp.acquire .indexWrite).update (lockWord db.mem) = some new ↔
      db.efSbIndexWriteLockAcquire.1 = .ok ∧ lockWord db.efSbIndexWriteLockAcquire.2.mem = new := by
  have hsb : db.contended.2.sb = db.sb := congrArg Superblock.read (mem_contended db)
  rw [update_acquire_lockWord]
  unfold efSbIndexWriteLockAcquire
  rw [if_neg hs]
  simp only [hsb, hfree, Bool.false_eq_true, false_or]
  have hlock : load db.mem (56 + LockByte.indexWrite.alignOff) 1 = db.sb.indexWriteLock := rfl
  rw [hlock]
  split_ifs with hbusy
  · simp
  · rw [Option.some.injEq, ← mem_contended db]
    exact (and_iff_right rfl).symm

/-- **The releases** of one handle are the updates of the loop. -/
lemma efSbLockRelease_update (hs : ¬ db.sb.schemaVersion < schemaVersion) :
    (LockOp.release .queue).update (lockWord db.mem) =
        some (lockWord db.efSbQueueLockRelease.mem) ∧
      (LockOp.release .indexWrite).update (lockWord db.mem) =
        some (lockWord db.efSbIndexWriteLockRelease.mem) := by
  unfold efSbQueueLockRelease efSbIndexWriteLockRelease
  rw [if_neg hs, if_neg hs]
  exact ⟨congrArg some (lockWord_store (by decide)).symm,
    congrArg some (lockWord_store (by decide)).symm⟩

/-- **The store of the capacity** of one handle is the update of the loop. -/
lemma efSbHashCapacityStore_update (db : Db) (hashCapacity : ℕ) :
    (LockOp.hashCapacityStore hashCapacity).update (lockWord db.mem) =
      some (lockWord (db.efSbHashCapacityStore hashCapacity).mem) :=
  congrArg some lockWord_setHashCap.symm

end Db

end Endfields.Model
