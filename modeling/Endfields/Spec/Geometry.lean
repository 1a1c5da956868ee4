import Endfields.Model.Open

/-!
# The regions of a mapped image

A schema v5 image is a superblock, the buckets, the slots and the undo segment, one behind the
other. `Geometry` is the pair of sizes that fixes these regions; it carries the bound that keeps all
offsets in 64 bits.

* `Geometry.slots` and `Geometry.segment` read the regions out of the bytes.
* **Frames.** A write inside one region leaves the readings of the others alone
  (`Geometry.slots_of_agree`, `Geometry.segment_of_agree`, `Superblock.read_congr`).
* **Slot writes.** A write inside slot `i` changes the reading of slot `i` only
  (`Geometry.slots_of_slot_write`).
-/

namespace Endfields.Model

open Endfields.Lib

/-- The status words are in the range of their field. -/
@[simp] lemma one_mod_u32 : 1 % u32 = 1 := rfl
/-- `EF_STATUS_OVERFLOW` fits its field. -/
@[simp] lemma two_mod_u32 : 2 % u32 = 2 := rfl
/-- `EF_STATUS_QUEUED` fits its field. -/
@[simp] lemma three_mod_u32 : 3 % u32 = 3 := rfl
/-- `EF_STATUS_QUEUE_DUMMY` fits its field. -/
@[simp] lemma four_mod_u32 : 4 % u32 = 4 := rfl

/-! ### Readings depend on their own bytes -/

/-- The superblock depends on the first 64 bytes alone. -/
lemma Superblock.read_congr {m m' : Mem} (h : ∀ x, x < 64 → m x = m' x) :
    Superblock.read m = Superblock.read m' := by
  have hload : ∀ a w, a + w ≤ 64 → load m a w = load m' a w := by
    intro a w haw
    exact load_congr fun x _ hx => h x (by omega)
  simp only [Superblock.read, hload _ _ (by norm_num : (0 : ℕ) + 4 ≤ 64),
    hload 4 4 (by norm_num), hload 8 8 (by norm_num), hload 16 8 (by norm_num),
    hload 24 4 (by norm_num), hload 28 4 (by norm_num), hload 32 4 (by norm_num),
    hload 36 4 (by norm_num), hload 40 8 (by norm_num), hload 48 8 (by norm_num),
    hload 56 2 (by norm_num), hload 58 1 (by norm_num), hload 59 1 (by norm_num),
    hload 60 1 (by norm_num), hload 61 1 (by norm_num), hload 62 2 (by norm_num)]

/-- A slot depends on its 64 bytes alone. -/
lemma Slot.read_congr {m m' : Mem} {p : ℕ} (h : ∀ x, p ≤ x → x < p + 64 → m x = m' x) :
    Slot.read m p = Slot.read m' p := by
  have hload : ∀ k w, k + w ≤ 64 → load m (p + k) w = load m' (p + k) w := by
    intro k w hkw
    exact load_congr fun x hx hx' => h x (by omega) (by omega)
  have hpay : readBytes m (p + 8) 48 = readBytes m' (p + 8) 48 :=
    readBytes_congr fun x hx hx' => h x (by omega) (by omega)
  have hstatus := hload 0 4 (by norm_num)
  simp only [Nat.add_zero] at hstatus
  simp only [Slot.read, hstatus, hload 4 4 (by norm_num), hload 56 8 (by norm_num), hpay]

/-- A slot depends on its bytes, wherever they are. -/
lemma Slot.read_shift {m m' : Mem} {p p' : ℕ} (h : ∀ x, x < 64 → m' (p' + x) = m (p + x)) :
    Slot.read m' p' = Slot.read m p := by
  have hload : ∀ k w, k + w ≤ 64 → load m' (p' + k) w = load m (p + k) w := by
    intro k w hkw
    refine load_shift fun x hx => ?_
    rw [Nat.add_assoc, Nat.add_assoc]
    exact h (k + x) (by omega)
  have hpay : readBytes m' (p' + 8) 48 = readBytes m (p + 8) 48 := by
    refine readBytes_shift fun x hx => ?_
    rw [Nat.add_assoc, Nat.add_assoc]
    exact h (8 + x) (by omega)
  have hstatus := hload 0 4 (by norm_num)
  simp only [Nat.add_zero] at hstatus
  simp only [Slot.read, hstatus, hload 4 4 (by norm_num), hload 56 8 (by norm_num), hpay]

/-- A bucket depends on its 16 bytes alone. -/
lemma HashEntry.read_congr {m m' : Mem} {p : ℕ} (h : ∀ x, p ≤ x → x < p + 16 → m x = m' x) :
    HashEntry.read m p = HashEntry.read m' p := by
  have hkey : load m p 8 = load m' p 8 :=
    load_congr fun x hx hx' => h x (by omega) (by omega)
  have hoff : load m (p + 8) 8 = load m' (p + 8) 8 :=
    load_congr fun x hx hx' => h x (by omega) (by omega)
  simp only [HashEntry.read, hkey, hoff]

/-- A record of the undo log: its kind, its target offset, the auxiliary word and the snapshot.
Source: `ef_undo.h`, `struct ef_undo_record` -/
structure UndoRec where
  kind : Option UndoKind
  target : ℕ
  aux : ℕ
  before : List UInt8
  deriving DecidableEq, Repr

/-- The record at address `a`. -/
def UndoRec.read (m : Mem) (a : ℕ) : UndoRec where
  kind := UndoKind.ofCode (load m a 1)
  target := load m (a + 4) 8
  aux := load m (a + 12) 8
  before := readBytes m (a + 20) 12

/-- An undo record depends on its 32 bytes alone. -/
lemma UndoRec.read_congr {m m' : Mem} {a : ℕ} (h : ∀ x, a ≤ x → x < a + 32 → m x = m' x) :
    UndoRec.read m a = UndoRec.read m' a := by
  have hkind : load m a 1 = load m' a 1 :=
    load_congr fun x hx hx' => h x (by omega) (by omega)
  have htarget : load m (a + 4) 8 = load m' (a + 4) 8 :=
    load_congr fun x hx hx' => h x (by omega) (by omega)
  have haux : load m (a + 12) 8 = load m' (a + 12) 8 :=
    load_congr fun x hx hx' => h x (by omega) (by omega)
  have hbefore : readBytes m (a + 20) 12 = readBytes m' (a + 20) 12 :=
    readBytes_congr fun x hx hx' => h x (by omega) (by omega)
  simp only [UndoRec.read, hkind, htarget, haux, hbefore]

/-! ### The regions -/

/-- The sizes of a v5 image: buckets and slots. The image with its undo segment ends below the
range of a 64-bit offset. -/
structure Geometry where
  cap : ℕ
  n : ℕ
  fits : 64 + 16 * cap + 64 * n + undoLogBytes undoLogDefaultSlots < u64
  deriving DecidableEq

instance : Inhabited Slot := ⟨⟨0, 0, List.replicate 48 0, 0⟩⟩

namespace Geometry

variable (g : Geometry)

/-- The address of the slot region. -/
def base : ℕ := 64 + 16 * g.cap

/-- The address of slot `i`. -/
def ptr (i : ℕ) : ℕ := g.base + 64 * i

/-- The address of the undo segment, right behind the slots. -/
def undoBase : ℕ := g.base + 64 * g.n

/-- The size of the image. -/
def size : ℕ := g.undoBase + undoLogBytes undoLogDefaultSlots

/-- The slots of an image; beyond the last one the reading is a blank slot. -/
def slots (m : Mem) : ℕ → Slot := fun i => if i < g.n then Slot.read m (g.ptr i) else default

/-- The bytes of the undo segment, addressed from its start. -/
def segment (m : Mem) : Mem := fun x => m (g.undoBase + x)

/-- The slots lie behind the superblock. -/
lemma base_ge : 64 ≤ g.base := by
  unfold base
  omega

/-- The slots end where the undo segment begins. -/
lemma ptr_lt {i : ℕ} (hi : i < g.n) : g.ptr i + 64 ≤ g.undoBase := by
  unfold ptr undoBase
  omega

/-- A slot lies behind the table. -/
lemma base_le_ptr (i : ℕ) : g.base ≤ g.ptr i := by
  unfold ptr
  omega

/-- The image's size does not overflow. -/
lemma size_lt : g.size < u64 := by
  have h := g.fits
  unfold size undoBase base
  simp only [undoLogBytes, undoLogDefaultSlots, u64] at *
  omega

/-- The undo segment ends the image. -/
lemma size_eq : g.size = g.undoBase + 131104 := rfl

/-- Distinct slots lie apart. -/
lemma ptr_disjoint {i j : ℕ} (h : i ≠ j) : g.ptr i + 64 ≤ g.ptr j ∨ g.ptr j + 64 ≤ g.ptr i := by
  unfold ptr
  omega

/-- The slots of an image. -/
lemma slots_of_lt {m : Mem} {i : ℕ} (hi : i < g.n) : g.slots m i = Slot.read m (g.ptr i) :=
  if_pos hi

/-- The slot whose address an offset is. -/
def idOf (off : ℕ) : Option ℕ :=
  if g.base ≤ off ∧ (off - g.base) % 64 = 0 ∧ (off - g.base) / 64 < g.n then
    some ((off - g.base) / 64)
  else none

/-- The offsets that lead to a slot are the addresses of slots. -/
lemma idOf_eq_some_iff (off i : ℕ) : g.idOf off = some i ↔ i < g.n ∧ off = g.ptr i := by
  unfold idOf ptr
  constructor
  · intro h
    split_ifs at h with hc
    cases h
    omega
  · rintro ⟨hi, rfl⟩
    rw [if_pos (by omega)]
    congr 1
    omega

/-- The address of a slot leads to it. -/
lemma idOf_ptr {i : ℕ} (hi : i < g.n) : g.idOf (g.ptr i) = some i :=
  (g.idOf_eq_some_iff _ _).mpr ⟨hi, rfl⟩

/-- An offset leads nowhere exactly if no slot lies there. -/
lemma idOf_eq_none_iff (off : ℕ) : g.idOf off = none ↔ ∀ i, i < g.n → off ≠ g.ptr i := by
  constructor
  · intro h i hi hoff
    rw [hoff, g.idOf_ptr hi] at h
    cases h
  · intro h
    rcases hoff : g.idOf off with _ | i
    · rfl
    · obtain ⟨hi, hp⟩ := (g.idOf_eq_some_iff _ _).mp hoff
      exact absurd hp (h i hi)

/-- The offset `0` leads nowhere. -/
@[simp] lemma idOf_zero : g.idOf 0 = none := by
  rw [idOf_eq_none_iff]
  intro i _
  have hb := g.base_ge
  have hp := g.base_le_ptr i
  omega

/-- Slots at the same address are the same. -/
lemma ptr_inj {i j : ℕ} (h : g.ptr i = g.ptr j) : i = j := by
  unfold ptr at h
  omega

/-- No slot lies at the offset `0`. -/
lemma ptr_ne_zero (i : ℕ) : g.ptr i ≠ 0 := by
  have hb := g.base_ge
  have hp := g.base_le_ptr i
  omega

/-- The address of a slot fits an offset word. -/
lemma ptr_lt_u64 {i : ℕ} (hi : i < g.n) : g.ptr i < u64 := by
  have hp := g.ptr_lt hi
  have hs := g.size_lt
  have hs' := g.size_eq
  omega

variable {g}

/-! ### Frames -/

/-- The slots depend on the bytes of the slot region only. -/
lemma slots_of_agree {m m' : Mem} (h : ∀ x, g.base ≤ x → x < g.undoBase → m' x = m x) :
    g.slots m' = g.slots m := by
  funext i
  unfold slots
  split_ifs with hi
  · have hp := g.ptr_lt hi
    have hb := g.base_le_ptr i
    exact Slot.read_congr fun x hx hx' => h x (by omega) (by omega)
  · rfl

/-- A write inside slot `i` replaces slot `i` by its new reading and nothing else. -/
lemma slots_of_slot_write {m m' : Mem} {i : ℕ} (hi : i < g.n)
    (h : ∀ x, x < g.ptr i ∨ g.ptr i + 64 ≤ x → m' x = m x) :
    g.slots m' = Function.update (g.slots m) i (Slot.read m' (g.ptr i)) := by
  funext j
  by_cases hji : j = i
  · subst hji
    rw [Function.update_self, g.slots_of_lt hi]
  · rw [Function.update_of_ne hji]
    unfold slots
    split_ifs with hj
    · have hd := g.ptr_disjoint hji
      exact Slot.read_congr fun x hx hx' => h x (by omega)
    · rfl

/-- The segment depends on its bytes alone. -/
lemma segment_of_agree {m m' : Mem} (h : ∀ x, g.undoBase ≤ x → m' x = m x) :
    g.segment m' = g.segment m := by
  funext x
  exact h _ (by omega)

/-- A write to a slot leaves the segment alone. -/
lemma segment_of_slot_write {m m' : Mem} {i : ℕ} (hi : i < g.n)
    (h : ∀ x, x < g.ptr i ∨ g.ptr i + 64 ≤ x → m' x = m x) : g.segment m' = g.segment m := by
  have hp := g.ptr_lt hi
  exact segment_of_agree fun x hx => h x (by omega)

/-- A store in the superblock leaves the segment alone. -/
lemma segment_store_low {m : Mem} {a w v : ℕ} (h : a + w ≤ 64) :
    g.segment (store m a w v) = g.segment m :=
  segment_of_agree fun x hx => by
    have hb := g.base_ge
    exact store_apply_of_outside (by unfold undoBase at hx; omega)

/-- A write to a slot leaves the superblock alone. -/
lemma sb_of_slot_write {m m' : Mem} {i : ℕ}
    (h : ∀ x, x < g.ptr i ∨ g.ptr i + 64 ≤ x → m' x = m x) :
    Superblock.read m' = Superblock.read m := by
  have hb := g.base_le_ptr i
  have hb' := g.base_ge
  exact Superblock.read_congr fun x hx => h x (by omega)

end Geometry

/-! ### Stores into the superblock -/

namespace Superblock

/-- One superblock field replaced, under the name of the field. -/
@[simps] def setMaxSlots (sb : Superblock) (v : ℕ) : Superblock := { sb with maxSlots := v }
@[simps] def setFreeListHead (sb : Superblock) (v : ℕ) : Superblock := { sb with freeListHead := v }
@[simps] def setFreeCount (sb : Superblock) (v : ℕ) : Superblock := { sb with freeCount := v }
@[simps] def setChecksum (sb : Superblock) (v : ℕ) : Superblock := { sb with checksum := v }
@[simps] def setQueueHead (sb : Superblock) (v : ℕ) : Superblock := { sb with queueHead := v }
@[simps] def setQueueTail (sb : Superblock) (v : ℕ) : Superblock := { sb with queueTail := v }
@[simps] def setHashCap (sb : Superblock) (v : ℕ) : Superblock := { sb with hashCap := v }
@[simps] def setQueueLock (sb : Superblock) (v : ℕ) : Superblock := { sb with queueLock := v }
@[simps] def setIndexWriteLock (sb : Superblock) (v : ℕ) : Superblock := { sb with indexWriteLock := v }
@[simps] def setTxnLock (sb : Superblock) (v : ℕ) : Superblock := { sb with txnLock := v }
@[simps] def setTxnState (sb : Superblock) (v : ℕ) : Superblock := { sb with txnState := v }

variable (m : Mem) (v : ℕ)

/-- The slot count is stored at offset 8. -/
lemma read_store_maxSlots :
    Superblock.read (store m 8 8 v) = (Superblock.read m).setMaxSlots (v % u64) := by
  simp [Superblock.read, setMaxSlots, load_store_of_disjoint, u64]

/-- The head of the free list is stored at offset 16. -/
lemma read_store_freeListHead :
    Superblock.read (store m 16 8 v) = (Superblock.read m).setFreeListHead (v % u64) := by
  simp [Superblock.read, setFreeListHead, load_store_of_disjoint, u64]

/-- The free count is stored at offset 32. -/
lemma read_store_freeCount :
    Superblock.read (store m 32 4 v) = (Superblock.read m).setFreeCount (v % u32) := by
  simp [Superblock.read, setFreeCount, load_store_of_disjoint, u32]

/-- The checksum is stored at offset 36. -/
lemma read_store_checksum :
    Superblock.read (store m 36 4 v) = (Superblock.read m).setChecksum (v % u32) := by
  simp [Superblock.read, setChecksum, load_store_of_disjoint, u32]

/-- The head of the queue is stored at offset 40. -/
lemma read_store_queueHead :
    Superblock.read (store m 40 8 v) = (Superblock.read m).setQueueHead (v % u64) := by
  simp [Superblock.read, setQueueHead, load_store_of_disjoint, u64]

/-- The tail of the queue is stored at offset 48. -/
lemma read_store_queueTail :
    Superblock.read (store m 48 8 v) = (Superblock.read m).setQueueTail (v % u64) := by
  simp [Superblock.read, setQueueTail, load_store_of_disjoint, u64]

/-- The capacity of the index is stored at offset 56. -/
lemma read_store_hashCap :
    Superblock.read (store m 56 2 v) = (Superblock.read m).setHashCap (v % 65536) := by
  simp [Superblock.read, setHashCap, load_store_of_disjoint]

/-- The lock of the queue is stored at offset 58. -/
lemma read_store_queueLock :
    Superblock.read (store m 58 1 v) = (Superblock.read m).setQueueLock (v % 256) := by
  simp [Superblock.read, setQueueLock, load_store_of_disjoint]

/-- The lock of the index is stored at offset 59. -/
lemma read_store_indexWriteLock :
    Superblock.read (store m 59 1 v) = (Superblock.read m).setIndexWriteLock (v % 256) := by
  simp [Superblock.read, setIndexWriteLock, load_store_of_disjoint]

/-- The lock of transactions is stored at offset 60. -/
lemma read_store_txnLock :
    Superblock.read (store m 60 1 v) = (Superblock.read m).setTxnLock (v % 256) := by
  simp [Superblock.read, setTxnLock, load_store_of_disjoint]

/-- The state of transactions is stored at offset 61. -/
lemma read_store_txnState :
    Superblock.read (store m 61 1 v) = (Superblock.read m).setTxnState (v % 256) := by
  simp [Superblock.read, setTxnState, load_store_of_disjoint]

end Superblock

/-! ### Stores into a slot -/

namespace Slot

variable (m : Mem) (p v : ℕ)

/-- A payload depends on its 48 bytes alone. -/
lemma payload_congr {m m' : Mem} {p : ℕ} (h : ∀ x, p + 8 ≤ x → x < p + 56 → m' x = m x) :
    readBytes m' (p + 8) 48 = readBytes m (p + 8) 48 :=
  readBytes_congr fun x hx hx' => h x hx (by omega)

/-- The status is the first word of a slot. -/
lemma read_store_status :
    Slot.read (store m p 4 v) p = { Slot.read m p with status := v % u32 } := by
  have hpay : readBytes (store m p 4 v) (p + 8) 48 = readBytes m (p + 8) 48 :=
    payload_congr fun x hx _ => store_apply_of_outside (by omega)
  simp [Slot.read, load_store_of_disjoint, u32, hpay]

/-- The checksum is the second word of a slot. -/
lemma read_store_headerCrc :
    Slot.read (store m (p + 4) 4 v) p = { Slot.read m p with headerCrc := v % u32 } := by
  have hpay : readBytes (store m (p + 4) 4 v) (p + 8) 48 = readBytes m (p + 8) 48 :=
    payload_congr fun x hx _ => store_apply_of_outside (by omega)
  simp [Slot.read, load_store_of_disjoint, u32, hpay]

/-- The link is the last word of a slot. -/
lemma read_store_nextOffset :
    Slot.read (store m (p + 56) 8 v) p = { Slot.read m p with nextOffset := v % u64 } := by
  have hpay : readBytes (store m (p + 56) 8 v) (p + 8) 48 = readBytes m (p + 8) 48 :=
    payload_congr fun x _ hx => store_apply_of_outside (by omega)
  have hstatus : load (store m (p + 56) 8 v) p 4 = load m p 4 :=
    load_store_of_disjoint (by omega)
  simp [Slot.read, load_store_of_disjoint, u64, hpay, hstatus]

/-- The payload of a slot always has 48 bytes. -/
@[simp] lemma length_payload_read : (Slot.read m p).payload.length = 48 := by
  simp [Slot.read]

/-- Bytes written at distance `k` into the payload replace that part of it. -/
lemma read_writeBytes_payload (k : ℕ) (bs : List UInt8) (h : k + bs.length ≤ 48) :
    Slot.read (writeBytes m (p + 8 + k) bs) p =
      { Slot.read m p with
        payload := (Slot.read m p).payload.take k ++ bs ++
          (Slot.read m p).payload.drop (k + bs.length) } := by
  have hload : ∀ a w, a + w ≤ p + 8 ∨ p + 56 ≤ a →
      load (writeBytes m (p + 8 + k) bs) a w = load m a w := by
    intro a w haw
    exact load_congr fun x hx hx' => writeBytes_apply_of_outside (by omega)
  simp only [Slot.read, hload p 4 (by omega), hload (p + 4) 4 (by omega),
    hload (p + 56) 8 (by omega), readBytes_writeBytes_sub m (p + 8) 48 k bs h]

/-- The payload filled with zeros. -/
lemma read_memset_payload :
    Slot.read (memset m (p + 8) 0 48) p =
      { Slot.read m p with payload := List.replicate 48 0 } := by
  have hload : ∀ a w, a + w ≤ p + 8 ∨ p + 56 ≤ a →
      load (memset m (p + 8) 0 48) a w = load m a w := by
    intro a w haw
    exact load_congr fun x hx hx' => memset_apply_of_outside (by omega)
  have hpay : readBytes (memset m (p + 8) 0 48) (p + 8) 48 = List.replicate 48 0 :=
    readBytes_eq_replicate fun x hx hx' => memset_apply_of_inside hx (by omega)
  simp only [Slot.read, hload p 4 (by omega), hload (p + 4) 4 (by omega),
    hload (p + 56) 8 (by omega), hpay]

/-- A whole slot filled with zeros. -/
lemma read_memset_slot : Slot.read (memset m p 0 64) p = ⟨0, 0, List.replicate 48 0, 0⟩ := by
  have hload : ∀ a w, p ≤ a → a + w ≤ p + 64 → load (memset m p 0 64) a w = 0 := by
    intro a w ha haw
    exact load_eq_zero fun x hx hx' => memset_apply_of_inside (by omega) (by omega)
  have hpay : readBytes (memset m p 0 64) (p + 8) 48 = List.replicate 48 0 :=
    readBytes_eq_replicate fun x hx hx' => memset_apply_of_inside (by omega) (by omega)
  simp only [Slot.read, hload p 4 le_rfl (by omega), hload (p + 4) 4 (by omega) (by omega),
    hload (p + 56) 8 (by omega) (by omega), hpay]

/-- The payload and the checksum field filled with zeros. -/
lemma read_memset_legacy :
    Slot.read (memset m (p + 4) 0 52) p =
      { Slot.read m p with headerCrc := 0, payload := List.replicate 48 0 } := by
  have hload : ∀ a w, a + w ≤ p + 4 ∨ p + 56 ≤ a →
      load (memset m (p + 4) 0 52) a w = load m a w := by
    intro a w haw
    exact load_congr fun x hx hx' => memset_apply_of_outside (by omega)
  have hcrc : load (memset m (p + 4) 0 52) (p + 4) 4 = 0 :=
    load_eq_zero fun x hx hx' => memset_apply_of_inside hx (by omega)
  have hpay : readBytes (memset m (p + 4) 0 52) (p + 8) 48 = List.replicate 48 0 :=
    readBytes_eq_replicate fun x hx hx' => memset_apply_of_inside (by omega) (by omega)
  simp only [Slot.read, hload p 4 (by omega), hload (p + 56) 8 (by omega), hcrc, hpay]

end Slot

namespace Geometry

/-- A store below address 64 leaves every slot alone. -/
lemma slots_store_low {g : Geometry} {m : Mem} {a w v : ℕ} (h : a + w ≤ 64) :
    g.slots (store m a w v) = g.slots m :=
  slots_of_agree fun x hx _ => by
    have hb := g.base_ge
    exact store_apply_of_outside (by omega)

end Geometry

end Endfields.Model
