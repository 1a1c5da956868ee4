import Endfields.Spec.Geometry

/-!
# What a handle shows: the view

`Db.view g` is the part of a handle that the slot operations act on, taken out of the bytes: the
fields of the handle that never change while the layout stays, the superblock, the slots and the
undo segment.

* Every primitive store has an equation that says what it does to the view (`view_setNext`, …), so
  an operation is followed through its stores by rewriting.
* `View.Bound g` says that the handle's slots are those of the geometry `g`, and `View.Ok g` that
  its undo segment is too, on a v5 image.
* `Segment.Holds s rs` says that the undo segment holds exactly the records `rs`.
-/

namespace Endfields.Model

open Endfields.Lib

/-- The fields of a handle that no slot operation changes, what the environment does to a growth,
and the lock attempts to come. -/
structure Core where
  isMapped : Bool
  fileSize : ℕ
  mapCapacity : ℕ
  backend : Backend
  hashCapacity : ℕ
  readonly : Bool
  txnActive : Bool
  undoLogBase : ℕ
  undoLogSlots : ℕ
  stack : List UInt8
  growFileErr : Option { err : Err // err ≠ .ok }
  mapAddr : ℕ → ℕ
  contention : List Bool

/-- The undo segment with the handle's two counters for it. -/
@[ext] structure Segment where
  tail : ℕ
  count : ℕ
  bytes : Mem

/-- The fields of a handle that stay, with the superblock, the slots and the undo segment. -/
@[ext] structure View where
  core : Core
  sb : Superblock
  slots : ℕ → Slot
  seg : Segment

/-- The handle's slots are those of the geometry `g`, inside the image, and it may write. -/
structure View.Bound (g : Geometry) (v : View) : Prop where
  cap : v.core.hashCapacity = g.cap
  inFile : g.undoBase ≤ v.core.fileSize
  writable : v.core.readonly = false
  maxSlots : v.sb.maxSlots = g.n

/-- The handle is bound to the geometry `g` with its undo segment, and maps a v5 image. -/
structure View.Ok (g : Geometry) (v : View) : Prop extends View.Bound g v where
  undoBase : v.core.undoLogBase = g.undoBase
  undoSlots : v.core.undoLogSlots = undoLogDefaultSlots
  size : v.core.fileSize = g.size
  schema : v.sb.schemaVersion = schemaVersion

namespace View

/-- Replace slot `i`. -/
@[simps] def setSlot (v : View) (i : ℕ) (s : Slot) : View :=
  { v with slots := Function.update v.slots i s }

/-- Replace the superblock. -/
@[simps] def setSb (v : View) (sb : Superblock) : View := { v with sb := sb }

/-- Replace the undo segment. -/
@[simps] def setSeg (v : View) (seg : Segment) : View := { v with seg := seg }

/-- One lock attempt made: the environment's next answer is used up. -/
def tick (v : View) : View :=
  { v with core := { v.core with contention := v.core.contention.tail } }

/-- A lock attempt leaves the superblock alone. -/
@[simp] lemma tick_sb (v : View) : v.tick.sb = v.sb := rfl

/-- A lock attempt leaves the slots alone. -/
@[simp] lemma tick_slots (v : View) : v.tick.slots = v.slots := rfl

/-- A lock attempt leaves the undo segment alone. -/
@[simp] lemma tick_seg (v : View) : v.tick.seg = v.seg := rfl

/-- Without contention a lock attempt changes nothing. -/
lemma tick_of_quiet {v : View} (h : v.core.contention = []) : v.tick = v := by
  unfold tick
  rw [h, List.tail_nil, ← h]

/-- A slot set to what it is. -/
@[simp] lemma setSlot_self (v : View) (i : ℕ) : v.setSlot i (v.slots i) = v := by
  simp [setSlot]

/-- The last of two writes to a slot counts. -/
@[simp] lemma setSlot_setSlot (v : View) (i : ℕ) (s t : Slot) :
    (v.setSlot i s).setSlot i t = v.setSlot i t := by
  simp [setSlot]

/-- The superblock set to what it is. -/
@[simp] lemma setSb_self (v : View) : v.setSb v.sb = v := rfl

/-- The last of two writes to the superblock counts. -/
@[simp] lemma setSb_setSb (v : View) (sb sb' : Superblock) :
    (v.setSb sb).setSb sb' = v.setSb sb' := rfl

/-- Superblock updates are written before slot updates. -/
@[simp] lemma setSlot_setSb (v : View) (i : ℕ) (s : Slot) (sb : Superblock) :
    (v.setSlot i s).setSb sb = (v.setSb sb).setSlot i s := rfl

/-- The segment and the superblock are set in either order. -/
@[simp] lemma setSeg_setSb (v : View) (seg : Segment) (sb : Superblock) :
    (v.setSeg seg).setSb sb = (v.setSb sb).setSeg seg := rfl

/-- The segment and a slot are set in either order. -/
@[simp] lemma setSeg_setSlot (v : View) (seg : Segment) (i : ℕ) (s : Slot) :
    (v.setSeg seg).setSlot i s = (v.setSlot i s).setSeg seg := rfl

/-- The last of two segments counts. -/
@[simp] lemma setSeg_setSeg (v : View) (seg seg' : Segment) :
    (v.setSeg seg).setSeg seg' = v.setSeg seg' := rfl

variable {g : Geometry} {v : View}

/-- Being bound depends on four fields only. -/
lemma Bound.congr {v' : View} (h : v.Bound g) (hcap : v'.core.hashCapacity = v.core.hashCapacity)
    (hfile : v'.core.fileSize = v.core.fileSize) (hw : v'.core.readonly = v.core.readonly)
    (hmax : v'.sb.maxSlots = v.sb.maxSlots) : v'.Bound g where
  cap := hcap.trans h.cap
  inFile := by rw [hfile]; exact h.inFile
  writable := hw.trans h.writable
  maxSlots := hmax.trans h.maxSlots

/-- The geometry does not depend on a slot's contents. -/
@[simp] lemma bound_setSlot {i : ℕ} {s : Slot} : (v.setSlot i s).Bound g ↔ v.Bound g :=
  ⟨fun h => h.congr rfl rfl rfl rfl, fun h => h.congr rfl rfl rfl rfl⟩

/-- The geometry does not depend on the answers to lock attempts. -/
@[simp] lemma bound_tick : v.tick.Bound g ↔ v.Bound g :=
  ⟨fun h => h.congr rfl rfl rfl rfl, fun h => h.congr rfl rfl rfl rfl⟩

/-- Being bound with the undo segment depends on the fixed fields and two superblock words only. -/
lemma Ok.congr {v' : View} (h : v.Ok g) (hcore : v'.core = v.core)
    (hmax : v'.sb.maxSlots = v.sb.maxSlots) (hschema : v'.sb.schemaVersion = v.sb.schemaVersion) :
    v'.Ok g where
  toBound := h.toBound.congr (by rw [hcore]) (by rw [hcore]) (by rw [hcore]) hmax
  undoBase := by rw [hcore]; exact h.undoBase
  undoSlots := by rw [hcore]; exact h.undoSlots
  size := by rw [hcore]; exact h.size
  schema := hschema.trans h.schema

/-- The layout does not depend on a slot's contents. -/
@[simp] lemma ok_setSlot {i : ℕ} {s : Slot} : (v.setSlot i s).Ok g ↔ v.Ok g :=
  ⟨fun h => h.congr rfl rfl rfl, fun h => h.congr rfl rfl rfl⟩

/-- The layout does not depend on the answers to lock attempts. -/
@[simp] lemma ok_tick : v.tick.Ok g ↔ v.Ok g := by
  constructor
  · intro h
    exact ⟨h.toBound.congr rfl rfl rfl rfl, h.undoBase, h.undoSlots, h.size, h.schema⟩
  · intro h
    exact ⟨h.toBound.congr rfl rfl rfl rfl, h.undoBase, h.undoSlots, h.size, h.schema⟩

/-- The layout does not depend on the segment's contents. -/
@[simp] lemma ok_setSeg {seg : Segment} : (v.setSeg seg).Ok g ↔ v.Ok g :=
  ⟨fun h => h.congr rfl rfl rfl, fun h => h.congr rfl rfl rfl⟩

/-- The layout depends on two words of the superblock. -/
lemma Ok.setSb (h : v.Ok g) {sb : Superblock} (hmax : sb.maxSlots = v.sb.maxSlots)
    (hschema : sb.schemaVersion = v.sb.schemaVersion) : (v.setSb sb).Ok g :=
  h.congr rfl hmax hschema

end View

namespace Db

variable {g : Geometry} {db db' : Db} {i v : ℕ}

/-- The fixed fields of a handle. -/
def core (db : Db) : Core where
  isMapped := db.isMapped
  fileSize := db.fileSize
  mapCapacity := db.mapCapacity
  backend := db.backend
  hashCapacity := db.hashCapacity
  readonly := db.readonly
  txnActive := db.txnActive
  undoLogBase := db.undoLogBase
  undoLogSlots := db.undoLogSlots
  stack := db.env.stack
  growFileErr := db.env.growFileErr
  mapAddr := db.env.mapAddr
  contention := db.env.contention

/-- What the handle shows, read with the geometry `g`. -/
def view (g : Geometry) (db : Db) : View where
  core := db.core
  sb := db.sb
  slots := g.slots db.mem
  seg := ⟨db.undoTail, db.undoRecordCount, g.segment db.mem⟩

/-- The superblock and the slots, read through the view. -/
lemma sb_eq (g : Geometry) (db : Db) : db.sb = (db.view g).sb := rfl

/-- The slot at its address is that of the view. -/
lemma slotAt_eq (db : Db) (hi : i < g.n) : db.slotAt (g.ptr i) = (db.view g).slots i :=
  (g.slots_of_lt hi).symm

/-- The view of other bytes. -/
lemma view_withMem (m : Mem) :
    (db.withMem m).view g = ⟨db.core, Superblock.read m, g.slots m,
      ⟨db.undoTail, db.undoRecordCount, g.segment m⟩⟩ := rfl

/-! ### The view after a primitive store -/

/-- The last error is not in the view. -/
@[simp] lemma view_setError (e : Err) : (db.setError e).view g = db.view g := rfl

/-- The mark of a changed superblock is not in the view.
Source: `endfields.c`, `ef_db_mark_meta_dirty` -/
@[simp] lemma view_efDbMarkMetaDirty : db.efDbMarkMetaDirty.view g = db.view g := rfl

/-- The slot count is stored. -/
@[simp] lemma view_setMaxSlots :
    (db.setMaxSlots v).view g =
      (db.view g).setSb ((db.view g).sb.setMaxSlots (v % u64)) := by
  unfold setMaxSlots store
  rw [view_withMem, Superblock.read_store_maxSlots, Geometry.slots_store_low (by norm_num),
    Geometry.segment_store_low (by norm_num)]
  rfl

/-- The head of the free list is stored. -/
@[simp] lemma view_setFreeListHead :
    (db.setFreeListHead v).view g =
      (db.view g).setSb ((db.view g).sb.setFreeListHead (v % u64)) := by
  unfold setFreeListHead store
  rw [view_withMem, Superblock.read_store_freeListHead, Geometry.slots_store_low (by norm_num),
    Geometry.segment_store_low (by norm_num)]
  rfl

/-- The free count is stored. -/
@[simp] lemma view_setFreeCount :
    (db.setFreeCount v).view g =
      (db.view g).setSb ((db.view g).sb.setFreeCount (v % u32)) := by
  unfold setFreeCount store
  rw [view_withMem, Superblock.read_store_freeCount, Geometry.slots_store_low (by norm_num),
    Geometry.segment_store_low (by norm_num)]
  rfl

/-- The checksum of the superblock is stored. -/
@[simp] lemma view_setChecksum :
    (db.setChecksum v).view g =
      (db.view g).setSb ((db.view g).sb.setChecksum (v % u32)) := by
  unfold setChecksum store
  rw [view_withMem, Superblock.read_store_checksum, Geometry.slots_store_low (by norm_num),
    Geometry.segment_store_low (by norm_num)]
  rfl

/-- The head of the queue is stored. -/
@[simp] lemma view_setQueueHead :
    (db.setQueueHead v).view g =
      (db.view g).setSb ((db.view g).sb.setQueueHead (v % u64)) := by
  unfold setQueueHead store
  rw [view_withMem, Superblock.read_store_queueHead, Geometry.slots_store_low (by norm_num),
    Geometry.segment_store_low (by norm_num)]
  rfl

/-- The tail of the queue is stored. -/
@[simp] lemma view_setQueueTail :
    (db.setQueueTail v).view g =
      (db.view g).setSb ((db.view g).sb.setQueueTail (v % u64)) := by
  unfold setQueueTail store
  rw [view_withMem, Superblock.read_store_queueTail, Geometry.slots_store_low (by norm_num),
    Geometry.segment_store_low (by norm_num)]
  rfl

/-- The lock byte of the queue is stored. -/
@[simp] lemma view_setQueueLock :
    (db.setQueueLock v).view g =
      (db.view g).setSb ((db.view g).sb.setQueueLock (v % 256)) := by
  unfold setQueueLock store
  rw [view_withMem, Superblock.read_store_queueLock, Geometry.slots_store_low (by norm_num),
    Geometry.segment_store_low (by norm_num)]
  rfl

/-- The lock byte of the index is stored. -/
@[simp] lemma view_setIndexWriteLock :
    (db.setIndexWriteLock v).view g =
      (db.view g).setSb ((db.view g).sb.setIndexWriteLock (v % 256)) := by
  unfold setIndexWriteLock store
  rw [view_withMem, Superblock.read_store_indexWriteLock, Geometry.slots_store_low (by norm_num),
    Geometry.segment_store_low (by norm_num)]
  rfl

/-- The lock byte of transactions is stored. -/
@[simp] lemma view_setTxnLock :
    (db.setTxnLock v).view g =
      (db.view g).setSb ((db.view g).sb.setTxnLock (v % 256)) := by
  unfold setTxnLock store
  rw [view_withMem, Superblock.read_store_txnLock, Geometry.slots_store_low (by norm_num),
    Geometry.segment_store_low (by norm_num)]
  rfl

/-- The state byte of transactions is stored. -/
@[simp] lemma view_setTxnState :
    (db.setTxnState v).view g =
      (db.view g).setSb ((db.view g).sb.setTxnState (v % 256)) := by
  unfold setTxnState store
  rw [view_withMem, Superblock.read_store_txnState, Geometry.slots_store_low (by norm_num),
    Geometry.segment_store_low (by norm_num)]
  rfl

/-- A write inside slot `i` shows as the new reading of slot `i`. -/
lemma view_of_slot_write {m : Mem} (hi : i < g.n)
    (h : ∀ x, x < g.ptr i ∨ g.ptr i + 64 ≤ x → m x = db.mem x) :
    (db.withMem m).view g = (db.view g).setSlot i (Slot.read m (g.ptr i)) := by
  rw [view_withMem, Geometry.sb_of_slot_write h, Geometry.slots_of_slot_write hi h,
    Geometry.segment_of_slot_write hi h]
  rfl

/-- A slot's status is stored. -/
lemma view_setStatus (hi : i < g.n) :
    (db.setStatus (g.ptr i) v).view g =
      (db.view g).setSlot i { (db.view g).slots i with status := v % u32 } := by
  unfold setStatus store
  rw [view_of_slot_write hi fun x hx => store_apply_of_outside (by omega), Slot.read_store_status,
    ← slotAt_eq db hi]
  rfl

/-- A slot's checksum is stored. -/
lemma view_setHeaderCrc (hi : i < g.n) :
    (db.setHeaderCrc (g.ptr i) v).view g =
      (db.view g).setSlot i { (db.view g).slots i with headerCrc := v % u32 } := by
  unfold setHeaderCrc store
  rw [view_of_slot_write hi fun x hx => store_apply_of_outside (by omega),
    Slot.read_store_headerCrc, ← slotAt_eq db hi]
  rfl

/-- A slot's link is stored. -/
lemma view_setNext (hi : i < g.n) :
    (db.setNext (g.ptr i) v).view g =
      (db.view g).setSlot i { (db.view g).slots i with nextOffset := v % u64 } := by
  unfold setNext store
  rw [view_of_slot_write hi fun x hx => store_apply_of_outside (by omega),
    Slot.read_store_nextOffset, ← slotAt_eq db hi]
  rfl

/-- A slot's payload is cleared. -/
lemma view_zero_payload (hi : i < g.n) :
    (db.zero (g.ptr i + 8) 48).view g =
      (db.view g).setSlot i { (db.view g).slots i with payload := List.replicate 48 0 } := by
  unfold zero
  rw [view_of_slot_write hi fun x hx => memset_apply_of_outside (by omega),
    Slot.read_memset_payload, ← slotAt_eq db hi]
  rfl

/-- A whole slot is cleared. -/
lemma view_zero_slot (hi : i < g.n) :
    (db.zero (g.ptr i) 64).view g =
      (db.view g).setSlot i ⟨0, 0, List.replicate 48 0, 0⟩ := by
  unfold zero
  rw [view_of_slot_write hi fun x hx => memset_apply_of_outside (by omega), Slot.read_memset_slot]

/-- The payload of the layout without checksums takes in the checksum field. -/
lemma view_zero_legacy (hi : i < g.n) :
    (db.zero (g.ptr i + 4) 52).view g =
      (db.view g).setSlot i { (db.view g).slots i with
        headerCrc := 0, payload := List.replicate 48 0 } := by
  unfold zero
  rw [view_of_slot_write hi fun x hx => memset_apply_of_outside (by omega),
    Slot.read_memset_legacy, ← slotAt_eq db hi]
  rfl

/-- Bytes are copied into a slot's payload. -/
lemma view_copyIn_payload (db : Db) (hi : i < g.n) (k : ℕ) (bs : List UInt8) (h : k + bs.length ≤ 48) :
    (db.copyIn (g.ptr i + 8 + k) bs).view g =
      (db.view g).setSlot i
        { (db.view g).slots i with
          payload := ((db.view g).slots i).payload.take k ++ bs ++
            ((db.view g).slots i).payload.drop (k + bs.length) } := by
  unfold copyIn
  rw [view_of_slot_write hi fun x hx => writeBytes_apply_of_outside (by omega),
    Slot.read_writeBytes_payload _ _ k bs h, ← slotAt_eq db hi]
  rfl

end Db

/-! ### The undo segment -/

namespace Segment

/-- The first `k` records of the segment. -/
def log (s : Segment) (k : ℕ) : List UndoRec :=
  (List.range k).map fun j => UndoRec.read s.bytes (32 + 32 * j)

/-- The header of a segment with `k` records: blank without records, else with its magic word and
the end of the log. -/
def Header (m : Mem) (k : ℕ) : Prop :=
  if k = 0 then load m 0 4 = 0
  else load m 0 4 = undoHeaderMagic ∧ load m 8 8 = 32 + 32 * k

/-- The segment holds the records `rs`, and the counters say so. -/
structure Holds (s : Segment) (rs : List UndoRec) : Prop where
  tail : s.tail = 32 + 32 * rs.length
  count : s.count = rs.length
  len : rs.length ≤ undoLogDefaultSlots
  log : s.log rs.length = rs
  header : Header s.bytes rs.length

end Segment

end Endfields.Model
