import Endfields.Lib.CasLoop

/-!
# The lock word of the superblock

From schema v5 on, the hash capacity and the two lock bytes share the 32-bit word at offset `56`,
which is `sb->reserved[20..23]`. Any number of processes change it, each by a compare-and-swap loop
(`ef_atomic_unaligned.h`, on an aligned word). What one process does between two accesses is its
own.
-/

namespace Endfields.Model

open Endfields.Lib

/-- The byte of a word at the offset `alignOff`.
Source: `ef_atomic_unaligned.h`, `ef_atomic_load_u8` -/
def efAtomicLoadU8 (word : BitVec 32) (alignOff : ℕ) : BitVec 8 :=
  ((word >>> (alignOff * 8)) &&& 0xFF#32).setWidth 8

/-- The word that the store of a byte swaps in for the word that it has read.
Source: `ef_atomic_unaligned.h`, `ef_atomic_store_u8` -/
def efAtomicStoreU8 (expWord : BitVec 32) (alignOff : ℕ) (value : BitVec 8) : BitVec 32 :=
  (expWord &&& ~~~(0xFF#32 <<< (alignOff * 8))) ||| (value.setWidth 32 <<< (alignOff * 8))

/-- The word that the swap of a byte swaps in, unless the byte is not the expected one.
Source: `ef_atomic_unaligned.h`, `ef_atomic_cas_u8` -/
def efAtomicCasU8 (expWord : BitVec 32) (alignOff : ℕ) (expected desired : BitVec 8) :
    Option (BitVec 32) :=
  if efAtomicLoadU8 expWord alignOff ≠ expected then none
  else some (efAtomicStoreU8 expWord alignOff desired)

/-- The 16 bits that a store of the hash capacity writes.
Source: `ef_sb_layout.c`, `ef_sb_hash_capacity_store` -/
def cap16 (hashCapacity : ℕ) : BitVec 16 :=
  BitVec.ofNat 16 (if 0xFFFF < hashCapacity then 0xFFFF else hashCapacity)

/-- The word that a store of the hash capacity swaps in for the word that it has read.
Source: `ef_sb_layout.c`, `ef_sb_hash_capacity_store` -/
def storeCap16 (cur : BitVec 32) (cap16 : BitVec 16) : BitVec 32 :=
  (cur &&& 0xFFFF0000#32) ||| cap16.setWidth 32

/-- The hash capacity in the word.
Source: `ef_sb_layout.c`, `ef_sb_hash_capacity_load` -/
def loadCap16 (word : BitVec 32) : BitVec 16 := word.setWidth 16

/-- The two lock bytes.
Source: `ef_sb_layout.c`, `ef_sb_queue_lock_byte`, `ef_sb_index_write_lock_byte` -/
inductive LockByte where
  | queue
  | indexWrite
  deriving DecidableEq

/-- The offset of a lock byte in the word. -/
def LockByte.alignOff : LockByte → ℕ
  | queue => 2
  | indexWrite => 3

/-- The functions that change the word. `acquire` stands for `ef_sb_queue_lock_acquire` and
`ef_sb_index_write_lock_acquire`, `release` for `ef_sb_queue_lock_release` and
`ef_sb_index_write_lock_release`. -/
inductive LockOp where
  | acquire (lock : LockByte)
  | release (lock : LockByte)
  | hashCapacityStore (hashCapacity : ℕ)

/-- The word that one round of the function swaps in for the word that it has read.
Source: `ef_sb_layout.c` -/
def LockOp.update : LockOp → BitVec 32 → Option (BitVec 32)
  | acquire lock, word => efAtomicCasU8 word lock.alignOff 0 1
  | release lock, word => some (efAtomicStoreU8 word lock.alignOff 0)
  | hashCapacityStore hashCapacity, word => some (storeCap16 word (cap16 hashCapacity))

/-- Source: `ef_sb_layout.h`, `EF_SB_INDEX_SPIN_MAX` -/
def sbIndexSpinMax : ℕ := 65536

/-- The loops: the store of the capacity reads the word again when its swap fails, the others go on
with what the swap has found. -/
def lockLoops : CasLoop.Loops LockOp (BitVec 32) where
  update := LockOp.update
  rereads := fun op => match op with
    | .hashCapacityStore _ => true
    | _ => false
  limit := sbIndexSpinMax

/-- The word and the processes, with the locks that each process has taken and not given back, and
the capacity that the last store was called with. -/
structure LockState (π : Type*) where
  loops : CasLoop.State π LockOp (BitVec 32)
  holds : π → LockByte → Bool
  stored : ℕ

namespace LockState

variable {π : Type*} [DecidableEq π]

/-- No process has called anything yet. -/
def start (word : BitVec 32) : LockState π where
  loops := { word := word, pc := fun _ => .idle }
  holds := fun _ _ => false
  stored := (loadCap16 word).toNat

/-- A process gives back locks that it holds, and stores the capacity with the index write lock. -/
def Allowed (s : LockState π) : CasLoop.Action π LockOp → Prop
  | .call p (.release lock) => s.holds p lock = true
  | .call p (.hashCapacityStore _) => s.holds p .indexWrite = true
  | _ => True

instance (s : LockState π) (a : CasLoop.Action π LockOp) : Decidable (s.Allowed a) := by
  unfold Allowed
  split <;> infer_instance

/-- What the end of a call means to its process. -/
def after (s : LockState π) (loops : CasLoop.State π LockOp (BitVec 32)) :
    CasLoop.Event π LockOp → LockState π
  | .done p (.acquire lock) =>
      { s with loops, holds := Function.update s.holds p (Function.update (s.holds p) lock true) }
  | .done p (.release lock) =>
      { s with loops, holds := Function.update s.holds p (Function.update (s.holds p) lock false) }
  | .done _ (.hashCapacityStore hashCapacity) => { s with loops, stored := hashCapacity }
  | _ => { s with loops }

/-- One atomic access of one process. -/
def step (s : LockState π) (a : CasLoop.Action π LockOp) : Option (LockState π) :=
  if s.Allowed a then
    (CasLoop.step lockLoops s.loops a).map fun r => s.after r.2 r.1
  else none

end LockState

end Endfields.Model
