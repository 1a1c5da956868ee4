import Endfields.Model.Open

/-!
# What the calls leave alone

For each function of the model, what it never changes, on every handle and whatever it returns.

* `Db.Keeps db db'`: the handle's transaction fields and its undo segment's place, and on a v5 image
  the superblock bytes that only growth, an open and the transaction calls write.
* `Db.Sized db db'`: also the sizes, the entry count of the index and its capacity, in the handle
  and in the superblock.
* `Db.Frame db db'`: also the buckets, as long as the undo segment does not lie in the table. Every
  function that touches slots, the free list, the log and the queue alone is a frame.
-/

namespace Endfields.Model

open Endfields.Lib

/-- The superblock bytes that no call writes other than growth, an open, and the calls that begin
and end a transaction: magic, slot size, slot count, schema, flags, transaction lock and state. -/
def fixedByte (x : ℕ) : Prop := x < 16 ∨ (24 ≤ x ∧ x < 32) ∨ (60 ≤ x ∧ x < 64)

/-- These, and the two bytes of the index capacity. -/
def sizedByte (x : ℕ) : Prop := fixedByte x ∨ (56 ≤ x ∧ x < 58)

namespace Db

/-- The handle maps a v5 image, and its undo segment does not lie in the superblock. -/
def Rooted (db : Db) : Prop :=
  schemaVersion ≤ db.sb.schemaVersion ∧ (db.undoLogBase = 0 ∨ 64 ≤ db.undoLogBase)

/-- The transaction fields, the place of the undo segment and the fixed bytes stay. -/
structure Keeps (db db' : Db) : Prop where
  backend : db'.backend = db.backend
  readonly : db'.readonly = db.readonly
  txnState : db'.txnState = db.txnState
  txnActive : db'.txnActive = db.txnActive
  txnWriterPid : db'.txnWriterPid = db.txnWriterPid
  undoLogBase : db'.undoLogBase = db.undoLogBase
  undoLogSlots : db'.undoLogSlots = db.undoLogSlots
  mem : db.Rooted → ∀ x, fixedByte x → db'.mem x = db.mem x

/-- Also the sizes, the capacity and the entry count stay. -/
structure Sized (db db' : Db) : Prop extends Keeps db db' where
  fileSize : db'.fileSize = db.fileSize
  mapCapacity : db'.mapCapacity = db.mapCapacity
  hashCapacity : db'.hashCapacity = db.hashCapacity
  hashEntryCount : db'.hashEntryCount = db.hashEntryCount
  capBytes : db.Rooted → ∀ x, 56 ≤ x → x < 58 → db'.mem x = db.mem x

/-- In a transaction, the undo segment does not lie in the table. -/
def Apart (db : Db) : Prop :=
  db.txnActive = true → db.undoLogBase = 0 ∨ db.slotsBase ≤ db.undoLogBase

/-- Also the buckets of the table stay. -/
structure Frame (db db' : Db) : Prop extends Sized db db' where
  table : db.Apart → ∀ x, 64 ≤ x → x < db.slotsBase → db'.mem x = db.mem x

variable {db db' db'' : Db}

/-! ### The fixed bytes -/

/-- Words of bytes that stay are read as they were. -/
lemma load_of_fixed {m m' : Mem} (h : ∀ x, fixedByte x → m' x = m x) {a w : ℕ}
    (ha : ∀ x, a ≤ x → x < a + w → fixedByte x) : load m' a w = load m a w :=
  load_congr fun x hx hx' => h x (ha x hx hx')

/-- A v5 image stays one. -/
lemma Keeps.rooted (h : Keeps db db') (hr : db.Rooted) : db'.Rooted := by
  refine ⟨?_, ?_⟩
  · have hs : db'.sb.schemaVersion = db.sb.schemaVersion :=
      load_of_fixed (h.mem hr) fun x hx hx' => .inr (.inl ⟨hx, by omega⟩)
    rw [hs]
    exact hr.1
  · rw [h.undoLogBase]
    exact hr.2

/-- The schema version stays. -/
lemma Keeps.schema (h : Keeps db db') (hr : db.Rooted) :
    db'.sb.schemaVersion = db.sb.schemaVersion :=
  load_of_fixed (h.mem hr) fun x hx hx' => .inr (.inl ⟨hx, by omega⟩)

/-- The number of slots stays. -/
lemma Keeps.maxSlots (h : Keeps db db') (hr : db.Rooted) : db'.sb.maxSlots = db.sb.maxSlots :=
  load_of_fixed (h.mem hr) fun x hx hx' => .inl (by omega)

/-- The lock byte of transactions stays. -/
lemma Keeps.txnLock (h : Keeps db db') (hr : db.Rooted) : db'.sb.txnLock = db.sb.txnLock :=
  load_of_fixed (h.mem hr) fun x hx hx' => .inr (.inr (by omega))

/-- The state byte of transactions stays. -/
lemma Keeps.sbTxnState (h : Keeps db db') (hr : db.Rooted) : db'.sb.txnState = db.sb.txnState :=
  load_of_fixed (h.mem hr) fun x hx hx' => .inr (.inr (by omega))

/-- Nothing happened. -/
lemma Keeps.refl (db : Db) : Keeps db db := ⟨rfl, rfl, rfl, rfl, rfl, rfl, rfl, fun _ _ _ => rfl⟩

/-- One call after the other. -/
lemma Keeps.trans (h : Keeps db db') (h' : Keeps db' db'') : Keeps db db'' where
  backend := h'.backend.trans h.backend
  readonly := h'.readonly.trans h.readonly
  txnState := h'.txnState.trans h.txnState
  txnActive := h'.txnActive.trans h.txnActive
  txnWriterPid := h'.txnWriterPid.trans h.txnWriterPid
  undoLogBase := h'.undoLogBase.trans h.undoLogBase
  undoLogSlots := h'.undoLogSlots.trans h.undoLogSlots
  mem hr x hx := (h'.mem (h.rooted hr) x hx).trans (h.mem hr x hx)

/-- Nothing happened. -/
lemma Sized.refl (db : Db) : Sized db db := ⟨Keeps.refl db, rfl, rfl, rfl, rfl, fun _ _ _ _ => rfl⟩

/-- One call after the other. -/
lemma Sized.trans (h : Sized db db') (h' : Sized db' db'') : Sized db db'' where
  toKeeps := h.toKeeps.trans h'.toKeeps
  fileSize := h'.fileSize.trans h.fileSize
  mapCapacity := h'.mapCapacity.trans h.mapCapacity
  hashCapacity := h'.hashCapacity.trans h.hashCapacity
  hashEntryCount := h'.hashEntryCount.trans h.hashEntryCount
  capBytes hr x hx hx' := (h'.capBytes (h.rooted hr) x hx hx').trans (h.capBytes hr x hx hx')

/-- The capacity in the superblock stays. -/
lemma Sized.hashCap (h : Sized db db') (hr : db.Rooted) : db'.sb.hashCap = db.sb.hashCap :=
  load_congr fun x hx hx' => h.capBytes hr x hx hx'

/-- The slots stay where they are. -/
lemma Sized.slotsBase (h : Sized db db') : db'.slotsBase = db.slotsBase := by
  rw [slotsBase_eq, slotsBase_eq, h.hashCapacity]

/-- The undo segment stays out of the table. -/
lemma Sized.apart (h : Sized db db') (ha : db.Apart) : db'.Apart := by
  unfold Apart
  rw [h.txnActive, h.undoLogBase, h.slotsBase]
  exact ha

/-- Nothing happened. -/
lemma Frame.refl (db : Db) : Frame db db := ⟨Sized.refl db, fun _ _ _ _ => rfl⟩

/-- One call after the other. -/
lemma Frame.trans (h : Frame db db') (h' : Frame db' db'') : Frame db db'' where
  toSized := h.toSized.trans h'.toSized
  table ha x hx hx' :=
    (h'.table (h.apart ha) x hx (by rwa [h.slotsBase])).trans (h.table ha x hx hx')

/-! ### Primitive changes -/

/-- The bytes that stay are bytes of the superblock. -/
lemma sizedByte_lt {x : ℕ} (h : sizedByte x) : x < 64 := by
  unfold sizedByte fixedByte at h
  omega

/-- A change of bytes. -/
lemma Sized.withMem (h : Sized db db') {m : Mem} (hm : db'.Rooted → ∀ x, sizedByte x → m x =
    db'.mem x) :
    Sized db (db'.withMem m) :=
  h.trans ⟨⟨rfl, rfl, rfl, rfl, rfl, rfl, rfl, fun hr x hx => hm hr x (.inl hx)⟩, rfl, rfl, rfl, rfl,
    fun hr x hx hx' => hm hr x (.inr ⟨hx, hx'⟩)⟩

/-- A store behind the superblock. -/
lemma Sized.store (h : Sized db db') {a w v : ℕ} (ha : 64 ≤ a) : Sized db (db'.store a w v) :=
  h.withMem fun _ _ hx => store_apply_of_outside (.inl ((sizedByte_lt hx).trans_le ha))

/-- A change of the counters of the undo log, and of bytes behind its start. -/
lemma Sized.writeLog (h : Sized db db') {m : Mem} (tail count : ℕ) (hne : db'.undoLogBase ≠ 0)
    (hm : ∀ x, x < db'.undoLogBase → m x = db'.mem x) :
    Sized db { db' with mem := m, undoTail := tail, undoRecordCount := count } := by
  have hlow : db'.Rooted → ∀ x, sizedByte x → m x = db'.mem x := fun hr x hx =>
    hm x ((sizedByte_lt hx).trans_le (hr.2.resolve_left hne))
  exact h.trans ⟨⟨rfl, rfl, rfl, rfl, rfl, rfl, rfl, fun hr x hx => hlow hr x (.inl hx)⟩, rfl, rfl, rfl,
    rfl, fun hr x hx hx' => hlow hr x (.inr ⟨hx, hx'⟩)⟩

namespace Frame

variable {a w v p : ℕ}

/-- A change of bytes outside the table and the fixed bytes. -/
lemma withMem (h : Frame db db') {m : Mem} (hm : db'.Rooted → ∀ x, sizedByte x → m x = db'.mem x)
    (ht : ∀ x, 64 ≤ x → x < db.slotsBase → m x = db'.mem x) : Frame db (db'.withMem m) where
  toSized := h.toSized.withMem hm
  table ha x hx hx' := (ht x hx hx').trans (h.table ha x hx hx')

/-- A store in the superblock, outside the bytes that stay. -/
lemma store (h : Frame db db') (ha : ∀ x, a ≤ x → x < a + w → ¬ sizedByte x) (hw : a + w ≤ 64) :
    Frame db (db'.store a w v) := by
  refine h.withMem (fun _ x hx => store_apply_of_outside ?_) fun x hx _ =>
    store_apply_of_outside (.inr (by omega))
  by_contra hin
  exact ha x (by omega) (by omega) hx

/-- A store behind the table. -/
lemma store_high (h : Frame db db') (ha : db.slotsBase ≤ a) : Frame db (db'.store a w v) where
  toSized := h.toSized.store (db.slotsBase_ge.trans ha)
  table hap x hx hx' :=
    (store_apply_of_outside (.inl (by omega))).trans (h.table hap x hx hx')

/-- Bytes behind the table are cleared. -/
lemma zero (h : Frame db db') (ha : db.slotsBase ≤ a) {n : ℕ} : Frame db (db'.zero a n) := by
  have hge := db.slotsBase_ge
  refine h.withMem (fun _ x hx => ?_) fun x _ hx => memset_apply_of_outside (.inl (by omega))
  have hlt := sizedByte_lt hx
  exact memset_apply_of_outside (.inl (by omega))

/-- Bytes are copied behind the table. -/
lemma copyIn (h : Frame db db') (ha : db.slotsBase ≤ a) {bs : List UInt8} :
    Frame db (db'.copyIn a bs) := by
  have hge := db.slotsBase_ge
  refine h.withMem (fun _ x hx => ?_) fun x _ hx => writeBytes_apply_of_outside (.inl (by omega))
  have hlt := sizedByte_lt hx
  exact writeBytes_apply_of_outside (.inl (by omega))

/-- A slot's link is stored.
Source: `endfields.c`, `ef_slot_next_offset_store` -/
lemma setNext (h : Frame db db') (hp : db.slotsBase ≤ p) : Frame db (db'.setNext p v) :=
  h.store_high (by omega)

/-- A slot's status is stored.
Source: `endfields.c`, `ef_slot_status_store` -/
lemma setStatus (h : Frame db db') (hp : db.slotsBase ≤ p) : Frame db (db'.setStatus p v) :=
  h.store_high hp

/-- A slot's checksum is stored.
Source: `endfields.c`, `ef_slot_header_crc_store` -/
lemma setHeaderCrc (h : Frame db db') (hp : db.slotsBase ≤ p) : Frame db (db'.setHeaderCrc p v) :=
  h.store_high (by omega)

/-- The head of the free list is stored. -/
lemma setFreeListHead (h : Frame db db') : Frame db (db'.setFreeListHead v) :=
  h.store (fun x hx hx' => by unfold sizedByte fixedByte; omega) (by norm_num)

/-- The free count is stored. -/
lemma setFreeCount (h : Frame db db') : Frame db (db'.setFreeCount v) :=
  h.store (fun x hx hx' => by unfold sizedByte fixedByte; omega) (by norm_num)

/-- The checksum of the superblock is stored.
Source: `endfields.c`, `ef_sb_checksum_store` -/
lemma setChecksum (h : Frame db db') : Frame db (db'.setChecksum v) :=
  h.store (fun x hx hx' => by unfold sizedByte fixedByte; omega) (by norm_num)

/-- The head of the queue is stored. -/
lemma setQueueHead (h : Frame db db') : Frame db (db'.setQueueHead v) :=
  h.store (fun x hx hx' => by unfold sizedByte fixedByte; omega) (by norm_num)

/-- The tail of the queue is stored. -/
lemma setQueueTail (h : Frame db db') : Frame db (db'.setQueueTail v) :=
  h.store (fun x hx hx' => by unfold sizedByte fixedByte; omega) (by norm_num)

/-- The lock byte of the queue is stored. -/
lemma setQueueLock (h : Frame db db') : Frame db (db'.setQueueLock v) :=
  h.store (fun x hx hx' => by unfold sizedByte fixedByte; omega) (by norm_num)

/-- The lock byte of the index is stored. -/
lemma setIndexWriteLock (h : Frame db db') : Frame db (db'.setIndexWriteLock v) :=
  h.store (fun x hx hx' => by unfold sizedByte fixedByte; omega) (by norm_num)

/-- The handle's fields that no relation here looks at. -/
lemma setError (h : Frame db db') {err : Err} : Frame db (db'.setError err) :=
  ⟨⟨⟨h.backend, h.readonly, h.txnState, h.txnActive, h.txnWriterPid, h.undoLogBase, h.undoLogSlots,
    h.mem⟩, h.fileSize, h.mapCapacity, h.hashCapacity, h.hashEntryCount, h.capBytes⟩, h.table⟩

/-- The superblock is marked as changed.
Source: `endfields.c`, `ef_db_mark_meta_dirty` -/
lemma markMetaDirty (h : Frame db db') : Frame db db'.efDbMarkMetaDirty :=
  ⟨⟨⟨h.backend, h.readonly, h.txnState, h.txnActive, h.txnWriterPid, h.undoLogBase, h.undoLogSlots,
    h.mem⟩, h.fileSize, h.mapCapacity, h.hashCapacity, h.hashEntryCount, h.capBytes⟩, h.table⟩

/-- The free count goes down.
Source: `endfields.c`, `ef_sb_free_count_dec` -/
lemma freeCountDec (h : Frame db db') : Frame db db'.efSbFreeCountDec := h.setFreeCount

/-- A change of the undo log in a transaction. -/
lemma writeLog (h : Frame db db') {m : Mem} (tail count : ℕ) (hact : db'.txnActive = true)
    (hne : db'.undoLogBase ≠ 0) (hm : ∀ x, x < db'.undoLogBase → m x = db'.mem x) :
    Frame db { db' with mem := m, undoTail := tail, undoRecordCount := count } where
  toSized := h.toSized.writeLog tail count hne hm
  table hap x hx hx' := by
    have hbase := ((h.apart hap) hact).resolve_left hne
    rw [h.slotsBase] at hbase
    exact (hm x (by omega)).trans (h.table hap x hx hx')

end Frame

/-! ### Locks -/

variable (db)

/-- The check that the handle may write.
Source: `endfields.c`, `ef_db_require_write` -/
lemma frame_efDbRequireWrite : Frame db db.efDbRequireWrite.2 := by
  unfold efDbRequireWrite
  split_ifs
  · exact (Frame.refl db).setError
  · exact Frame.refl db

/-- The environment answers a lock attempt. -/
lemma frame_contended : Frame db db.contended.2 := by
  unfold contended
  cases db.env.contention with
  | nil => exact Frame.refl db
  | cons c cs => exact ⟨⟨⟨rfl, rfl, rfl, rfl, rfl, rfl, rfl, fun _ _ _ => rfl⟩, rfl, rfl, rfl, rfl,
      fun _ _ _ _ => rfl⟩,
      fun _ _ _ _ => rfl⟩

/-- The lock of the index is taken, or not.
Source: `ef_sb_layout.c`, `ef_sb_index_write_lock_acquire` -/
lemma frame_efSbIndexWriteLockAcquire : Frame db db.efSbIndexWriteLockAcquire.2 := by
  have hf := frame_contended db
  unfold efSbIndexWriteLockAcquire
  split_ifs
  · exact Frame.refl db
  · simp only
    split_ifs
    · exact hf
    · exact hf.setIndexWriteLock

/-- The lock of the index is given back.
Source: `ef_sb_layout.c`, `ef_sb_index_write_lock_release` -/
lemma frame_efSbIndexWriteLockRelease : Frame db db.efSbIndexWriteLockRelease := by
  unfold efSbIndexWriteLockRelease
  split_ifs
  · exact Frame.refl db
  · exact (Frame.refl db).setIndexWriteLock

/-- Before schema v5 the queue lock takes the bytes that are the transaction's later. -/
lemma frame_store_legacyLock {v : ℕ} (h : db.sb.schemaVersion < schemaVersion) :
    Frame db (db.store 60 4 v) :=
  (Frame.refl db).withMem (fun hr _ _ => absurd hr.1 (by omega)) fun x hx _ =>
    store_apply_of_outside (.inr hx)

/-- The lock of the queue is taken, or not.
Source: `ef_sb_layout.c`, `ef_sb_queue_lock_acquire` -/
lemma frame_efSbQueueLockAcquire : Frame db db.efSbQueueLockAcquire.2 := by
  have hf := frame_contended db
  unfold efSbQueueLockAcquire
  simp only
  split_ifs with hs
  · exact hf
  · exact hf.trans (frame_store_legacyLock _ hs)
  · exact hf
  · exact hf.setQueueLock

/-- The lock of the queue is taken, or the call is refused.
Source: `ef_queue.c`, `ef_queue_lock_acquire` -/
lemma frame_efQueueLockAcquire : Frame db db.efQueueLockAcquire.2 := by
  have hf := frame_efSbQueueLockAcquire db
  unfold efQueueLockAcquire
  generalize db.efSbQueueLockAcquire = r at hf ⊢
  obtain ⟨e, db₁⟩ := r
  cases e with
  | ok => exact hf
  | _ => exact Frame.setError hf

/-- The lock of the queue is given back.
Source: `ef_sb_layout.c`, `ef_sb_queue_lock_release` -/
lemma frame_efSbQueueLockRelease : Frame db db.efSbQueueLockRelease := by
  unfold efSbQueueLockRelease
  split_ifs with hs
  · exact frame_store_legacyLock db hs
  · exact (Frame.refl db).setQueueLock

/-- The sequence number of the index goes up.
Source: `ef_index.c`, `ef_index_write_begin`, `ef_index_write_end` -/
lemma frame_efSbIndexWriteSeqStep : Frame db db.efSbIndexWriteSeqStep := by
  unfold efSbIndexWriteSeqStep
  split_ifs
  · exact Frame.refl db
  · exact ⟨⟨⟨rfl, rfl, rfl, rfl, rfl, rfl, rfl, fun _ _ _ => rfl⟩, rfl, rfl, rfl, rfl,
        fun _ _ _ _ => rfl⟩,
      fun _ _ _ _ => rfl⟩

/-- A write section of the index begins, or is refused.
Source: `ef_index.c`, `ef_index_write_begin` -/
lemma frame_efIndexWriteBegin : Frame db db.efIndexWriteBegin.2 := by
  have hf := frame_efSbIndexWriteLockAcquire db
  unfold efIndexWriteBegin
  split_ifs
  · exact Frame.refl db
  · generalize db.efSbIndexWriteLockAcquire = r at hf ⊢
    obtain ⟨e, db₁⟩ := r
    cases e with
    | ok => exact hf.trans (frame_efSbIndexWriteSeqStep db₁)
    | _ => exact hf

/-- A write section of the index ends.
Source: `ef_index.c`, `ef_index_write_end` -/
lemma frame_efIndexWriteEnd : Frame db db.efIndexWriteEnd := by
  unfold efIndexWriteEnd
  split_ifs
  · exact Frame.refl db
  · exact (frame_efSbIndexWriteSeqStep db).trans (frame_efSbIndexWriteLockRelease _)

/-! ### Slots and the free list -/

/-- A slot pointer lies behind the table. -/
lemma slotPtr_ge (i : ℕ) : db.slotsBase ≤ db.slotPtr i := Nat.le_add_right ..

/-- The payload of a slot lies behind its start.
Source: `endfields.c`, `ef_slot_payload_ptr` -/
lemma efSlotPayloadPtr_ge {a p : ℕ} (hp : a ≤ p) : a ≤ db.efSlotPayloadPtr p := by
  unfold efSlotPayloadPtr
  split_ifs <;> omega

variable {db} in
/-- The slots of a frame lie behind the table of the database before. -/
lemma Frame.slotPtr (h : Frame db db') (i : ℕ) : db.slotsBase ≤ db'.slotPtr i := by
  rw [← h.slotsBase]
  exact slotPtr_ge db' i

variable {db} in
/-- A slot's checksum is computed and stored.
Source: `endfields.c`, `ef_slot_header_crc_store` -/
lemma Frame.crcStore (h : Frame db db') {p : ℕ} (i : ℕ) (hp : db.slotsBase ≤ p) :
    Frame db (db'.efSlotHeaderCrcStore i p) := by
  unfold efSlotHeaderCrcStore
  split_ifs
  · exact h.setHeaderCrc hp
  · exact h

/-- A slot pointer that is handed out lies behind the table. -/
lemma frame_efPeekSlot (i : ℕ) :
    Frame db (db.efPeekSlot i).2 ∧ ∀ p, (db.efPeekSlot i).1 = some p → db.slotsBase ≤ p := by
  unfold efPeekSlot
  split_ifs
  · exact ⟨(Frame.refl db).setError, fun p hp => by cases hp⟩
  · refine ⟨(Frame.refl db).setError, fun p hp => ?_⟩
    cases hp
    exact slotPtr_ge db i

/-- A file offset that is the offset of a slot lies behind the table. -/
lemma efOffsetToSlotId_ge {db : Db} {off i : ℕ} (h : db.efOffsetToSlotId off = .ok i) :
    db.slotsBase ≤ off := by
  unfold efOffsetToSlotId at h
  split_ifs at h with h₁ h₂ h₃
  omega

/-- The head of the free list is taken.
Source: `endfields.c`, `ef_free_list_pop_atomic` -/
lemma frame_efFreeListPopAtomic (clear : Bool) : Frame db (db.efFreeListPopAtomic clear).2.2 := by
  unfold efFreeListPopAtomic
  simp only
  by_cases hempty : db.sb.freeListHead = 0 ∨ db.sb.freeCount = 0
  · rw [if_pos hempty]
    exact (Frame.refl db).setError
  rw [if_neg hempty]
  unfold efOffsetToPtr
  by_cases hoff : db.sb.freeListHead = 0 ∨ db.fileSize ≤ db.sb.freeListHead
  · rw [if_pos hoff]
    exact (Frame.refl db).setError
  rw [if_neg hoff]
  simp only
  rcases hid : (db.setError .ok).efOffsetToSlotId db.sb.freeListHead with err | i
  · exact (Frame.refl db).setError.setError
  have hp : db.slotsBase ≤ db.sb.freeListHead := efOffsetToSlotId_ge hid
  simp only
  refine Frame.setError (Frame.markMetaDirty (Frame.crcStore ?_ i hp))
  refine Frame.freeCountDec ?_
  have hf : Frame db ((((db.setError .ok).setFreeListHead
      ((db.setError .ok).slotAt db.sb.freeListHead).nextOffset).setNext db.sb.freeListHead 0).setStatus
      db.sb.freeListHead statusUsed) :=
    Frame.setStatus (Frame.setNext (Frame.setFreeListHead (Frame.setError (Frame.refl db))) hp) hp
  cases clear with
  | true => exact hf.zero (efSlotPayloadPtr_ge _ hp)
  | false => exact hf

/-- The checksum of one slot is brought up to date.
Source: `endfields.c`, `ef_db_refresh_slot_crcs` -/
lemma frame_refreshSlotCrc (i : ℕ) : Frame db (db.refreshSlotCrc i) := by
  unfold refreshSlotCrc
  split_ifs
  · exact (Frame.refl db).crcStore i (slotPtr_ge db i)
  · exact Frame.refl db

/-- The checksums of all slots are brought up to date.
Source: `endfields.c`, `ef_db_refresh_slot_crcs` -/
lemma frame_efDbRefreshSlotCrcs : Frame db db.efDbRefreshSlotCrcs := by
  have hloop : ∀ n, Frame db (db.refreshSlotCrcsLoop n) := by
    intro n
    induction n with
    | zero => exact Frame.refl db
    | succ n ih => exact ih.trans (frame_refreshSlotCrc _ n)
  unfold efDbRefreshSlotCrcs
  split_ifs
  · exact hloop _
  · exact Frame.refl db

/-! ### The undo log -/

/-- The header is written behind the start of the segment. -/
lemma writeUndoHeader_eq (h : ℕ) :
    ∃ m, db.writeUndoHeader h = db.withMem m ∧ ∀ x, x < h → m x = db.mem x := by
  unfold writeUndoHeader Db.store
  simp only [mem_withMem, withMem_undoRecordCount]
  split_ifs
  · refine ⟨_, rfl, fun x hx => ?_⟩
    simp only [mem_withMem]
    rw [store_apply_of_outside (by omega), store_apply_of_outside (by omega),
      store_apply_of_outside (by omega), store_apply_of_outside (by omega)]
  · refine ⟨_, rfl, fun x hx => ?_⟩
    simp only [mem_withMem]
    rw [store_apply_of_outside (by omega), store_apply_of_outside (by omega),
      store_apply_of_outside (by omega)]

/-- Outside a transaction an append does nothing; inside it writes behind the start of the segment,
or reports that the segment is full. -/
lemma efUndoRecordAppend_cases (kind : UndoKind) (target aux : ℕ) (before : List UInt8) :
    (db.efUndoRecordAppend kind target aux before).2 = db ∨
      (db.efUndoRecordAppend kind target aux before).2 = db.setError .txnLogFull ∨
      db.txnActive = true ∧ db.undoLogBase ≠ 0 ∧
        ∃ m tail count, (∀ x, x < db.undoLogBase → m x = db.mem x) ∧
          (db.efUndoRecordAppend kind target aux before).2 =
            ({ db with mem := m, undoTail := tail, undoRecordCount := count } :
            Db).efDbMarkMetaDirty := by
  unfold efUndoRecordAppend efUndoRecordAppendRaw efUndoHeaderPtr
  by_cases hact : db.txnActive = false
  · rw [if_pos hact]
    exact .inl rfl
  rw [if_neg hact]
  by_cases hbase : db.undoLogBase = 0
  · rw [if_pos hbase]
    exact .inl rfl
  rw [if_neg hbase]
  simp only
  by_cases hfull : undoLogBytes db.undoLogSlots < db.undoTail + 32
  · rw [if_pos hfull]
    exact .inr (.inl rfl)
  rw [if_neg hfull]
  have hrec : ∀ x, x < db.undoLogBase →
      (db.writeUndoRecord (db.undoLogBase + db.undoTail) kind target aux before).mem x = db.mem x := by
    intro x hx
    simp only [writeUndoRecord, writeRawRecord, Db.copyIn, Db.store, Db.zero, mem_withMem]
    rw [writeBytes_apply_of_outside (by omega), store_apply_of_outside (by omega),
      store_apply_of_outside (by omega), store_apply_of_outside (by omega),
      store_apply_of_outside (by omega), memset_apply_of_outside (by omega)]
  obtain ⟨m, hheader, hm⟩ := writeUndoHeader_eq
    { db.writeUndoRecord (db.undoLogBase + db.undoTail) kind target aux before with
      undoTail := db.undoTail + 32
      undoRecordCount := (db.undoRecordCount + 1) % u32 } db.undoLogBase
  refine .inr (.inr ⟨by simpa using hact, hbase, m, db.undoTail + 32, (db.undoRecordCount + 1) % u32,
    fun x hx => (hm x hx).trans (hrec x hx), ?_⟩)
  exact congrArg Db.efDbMarkMetaDirty hheader

/-- A record is appended to the undo log.
Source: `ef_undo.c`, `ef_undo_record_append` -/
lemma frame_efUndoRecordAppend (kind : UndoKind) (target aux : ℕ) (before : List UInt8) :
    Frame db (db.efUndoRecordAppend kind target aux before).2 := by
  rcases db.efUndoRecordAppend_cases kind target aux before with
    heq | heq | ⟨hact, hbase, m, tail, count, hm, heq⟩
  · rw [heq]
    exact Frame.refl db
  · rw [heq]
    exact (Frame.refl db).setError
  · rw [heq]
    exact Frame.markMetaDirty ((Frame.refl db).writeLog tail count hact hbase hm)

/-- The undo log is cleared, wherever its segment lies.
Source: `ef_undo.c`, `ef_undo_reset` -/
lemma sized_efUndoReset : Sized db db.efUndoReset := by
  unfold efUndoReset efUndoHeaderPtr
  by_cases hbase : db.undoLogBase = 0
  · rw [if_pos hbase]
    exact Sized.refl db
  · rw [if_neg hbase]
    have hlog : Sized db { db.zero db.undoLogBase (undoLogBytes db.undoLogSlots) with
        undoTail := 32
        undoRecordCount := 0 } :=
      (Sized.refl db).writeLog 32 0 hbase fun x hx => memset_apply_of_outside (.inl hx)
    exact hlog.trans ⟨⟨rfl, rfl, rfl, rfl, rfl, rfl, rfl, fun _ _ _ => rfl⟩, rfl, rfl, rfl, rfl,
      fun _ _ _ _ => rfl⟩

/-- The records of an allocation are appended.
Source: `ef_txn.c`, `ef_txn_record_slot_alloc`, `ef_txn_record_free_count` -/
lemma frame_recordAlloc (i : ℕ) : Frame db (db.recordAlloc i) := by
  obtain ⟨hf, -⟩ := frame_efPeekSlot db i
  unfold recordAlloc
  generalize db.efPeekSlot i = r at hf ⊢
  obtain ⟨_ | p, db₁⟩ := r
  · exact hf
  · exact (hf.trans (frame_efUndoRecordAppend db₁ _ _ _ _)).trans (frame_efUndoRecordAppend _ _ _ _ _)

/-! ### Allocation -/

/-- An allocation.
Source: `endfields.c`, `ef_alloc_slot_ex` -/
lemma frame_efAllocSlotEx (clear : Bool) : Frame db (db.efAllocSlotEx clear).2.2 := by
  have hw := frame_efDbRequireWrite db
  unfold efAllocSlotEx
  generalize db.efDbRequireWrite = r at hw ⊢
  obtain ⟨e, db₁⟩ := r
  have hw : Frame db db₁ := hw
  cases e with
  | ok =>
      simp only
      generalize decide (schemaVersion ≤ db₁.sb.schemaVersion) = seqlock
      have hl : Frame db (if seqlock = true then db₁.efSbIndexWriteLockAcquire else (.ok, db₁)).2 := by
        split_ifs
        · exact hw.trans (frame_efSbIndexWriteLockAcquire db₁)
        · exact hw
      generalize (if seqlock = true then db₁.efSbIndexWriteLockAcquire else (.ok, db₁)) = r at hl ⊢
      obtain ⟨e, db₂⟩ := r
      have hl : Frame db db₂ := hl
      cases e with
      | ok =>
          have hp := hl.trans (frame_efFreeListPopAtomic db₂ clear)
          simp only
          generalize db₂.efFreeListPopAtomic clear = r at hp ⊢
          obtain ⟨err, i, db₃⟩ := r
          have hp : Frame db db₃ := hp
          have hr : Frame db (if err = .ok ∧ db₃.txnActive = true then db₃.recordAlloc i else db₃) := by
            split_ifs
            · exact hp.trans (frame_recordAlloc db₃ i)
            · exact hp
          simp only
          generalize (if err = .ok ∧ db₃.txnActive = true then db₃.recordAlloc i else db₃) = db₄ at hr ⊢
          split_ifs
          · exact hr.trans (frame_efSbIndexWriteLockRelease db₄)
          · exact hr
      | _ => exact hl.setError
  | _ => exact hw

/-! ### The inverse actions on slots and the queue -/

/-- The inverse of a status change.
Source: `ef_undo.c`, `ef_undo_restore_slot_status` -/
lemma frame_efUndoRestoreSlotStatus (i st crc : ℕ) : Frame db
    (db.efUndoRestoreSlotStatus i st crc).2 := by
  obtain ⟨hf, hp⟩ := frame_efPeekSlot db i
  unfold efUndoRestoreSlotStatus
  generalize db.efPeekSlot i = r at hf hp ⊢
  obtain ⟨_ | p, db₁⟩ := r
  · exact hf
  have hp : db.slotsBase ≤ p := hp p rfl
  have hf : Frame db db₁ := hf
  have hs : Frame db (db₁.setStatus p st) := hf.setStatus hp
  simp only
  split_ifs
  · exact hs.setHeaderCrc hp
  · exact hs.setHeaderCrc hp

/-- The inverse of a change of a link.
Source: `ef_undo.c`, `ef_undo_restore_slot_next` -/
lemma frame_efUndoRestoreSlotNext (i nx : ℕ) : Frame db (db.efUndoRestoreSlotNext i nx).2 := by
  obtain ⟨hf, hp⟩ := frame_efPeekSlot db i
  unfold efUndoRestoreSlotNext
  generalize db.efPeekSlot i = r at hf hp ⊢
  obtain ⟨_ | p, db₁⟩ := r
  · exact hf
  have hp : db.slotsBase ≤ p := hp p rfl
  have hf : Frame db db₁ := hf
  exact Frame.crcStore (hf.setNext hp) i hp

/-- The inverse of a write.
Source: `ef_undo.c`, `ef_undo_replay_reverse` -/
lemma frame_undoRestoreSlotPayload (i : ℕ) (bs : List UInt8) : Frame db
    (db.undoRestoreSlotPayload i bs).2 := by
  obtain ⟨hf, hp⟩ := frame_efPeekSlot db i
  unfold undoRestoreSlotPayload
  generalize db.efPeekSlot i = r at hf hp ⊢
  obtain ⟨_ | p, db₁⟩ := r
  · exact hf
  have hp : db.slotsBase ≤ p := hp p rfl
  have hf : Frame db db₁ := hf
  exact Frame.crcStore (hf.copyIn (efSlotPayloadPtr_ge db₁ hp)) i hp

/-- The inverse of an allocation.
Source: `ef_undo.c`, `ef_undo_restore_slot_alloc` -/
lemma frame_efUndoRestoreSlotAlloc (i : ℕ) : Frame db (db.efUndoRestoreSlotAlloc i).2 := by
  obtain ⟨hf, hp⟩ := frame_efPeekSlot db i
  unfold efUndoRestoreSlotAlloc
  generalize db.efPeekSlot i = r at hf hp ⊢
  obtain ⟨_ | p, db₁⟩ := r
  · exact hf
  have hp : db.slotsBase ≤ p := hp p rfl
  have hf : Frame db db₁ := hf
  refine Frame.markMetaDirty (Frame.setFreeListHead (Frame.setHeaderCrc ?_ hp))
  exact Frame.setStatus (Frame.setNext hf hp) hp

/-- The inverse of a release.
Source: `ef_undo.c`, `ef_undo_restore_slot_free` -/
lemma frame_efUndoRestoreSlotFree (i nx st : ℕ) : Frame db (db.efUndoRestoreSlotFree i nx st).2 := by
  obtain ⟨hf, hp⟩ := frame_efPeekSlot db i
  unfold efUndoRestoreSlotFree
  generalize db.efPeekSlot i = r at hf hp ⊢
  obtain ⟨_ | p, db₁⟩ := r
  · exact hf
  have hp : db.slotsBase ≤ p := hp p rfl
  have hf : Frame db db₁ := hf
  have hs : Frame db ((db₁.setNext p nx).setStatus p st) := Frame.setStatus (hf.setNext hp) hp
  simp only
  refine Frame.markMetaDirty ?_
  split_ifs
  · exact hs.crcStore i hp
  · exact hs.setHeaderCrc hp

/-- The inverse of a change of the free count.
Source: `ef_undo.c`, `ef_undo_replay_reverse` -/
lemma frame_undoRestoreFreeCount (delta : ℤ) : Frame db (db.undoRestoreFreeCount delta).2 :=
  Frame.markMetaDirty (Frame.setFreeCount (Frame.refl db))

/-- The inverse of a push.
Source: `ef_queue.c`, `ef_queue_restore_before_push` -/
lemma frame_efQueueRestoreBeforePush (off saved : ℕ) :
    Frame db (db.efQueueRestoreBeforePush off saved).2 := by
  have hlock := frame_efQueueLockAcquire db
  unfold efQueueRestoreBeforePush
  generalize db.efQueueLockAcquire = r at hlock ⊢
  obtain ⟨e, db₁⟩ := r
  have hlock : Frame db db₁ := hlock
  have hrelease := hlock.trans (frame_efSbQueueLockRelease db₁)
  cases e with
  | ok =>
      simp only
      refine iteInduction (motive := fun r : Err × Db => Frame db r.2) (fun _ => hrelease) fun _ => ?_
      rcases db₁.efSlotAtOffset off with _ | node
      · exact hrelease
      simp only
      -- the slot whose link is cleared: the one at the saved offset, or the dummy
      have hclear : ∀ i id, Frame db ((db₁.setNext (db₁.slotPtr i) 0).efSlotHeaderCrcStore id
          (db₁.slotPtr i)) := fun i id =>
        (hlock.setNext (hlock.slotPtr i)).crcStore id (hlock.slotPtr i)
      -- then the tail goes back, and the node becomes an ordinary slot
      have hrest : ∀ db₂, Frame db db₂ →
          Frame db ((((db₂.setQueueTail saved).setStatus ((db₂.setQueueTail saved).slotPtr node)
            statusUsed).efSlotHeaderCrcStore node (((db₂.setQueueTail saved).setStatus
            ((db₂.setQueueTail saved).slotPtr node) statusUsed).slotPtr
              node)).efSbQueueLockRelease.efDbMarkMetaDirty) := by
        intro db₂ h
        have htail : Frame db (db₂.setQueueTail saved) := h.setQueueTail
        have hstatus := htail.setStatus (v := statusUsed) (htail.slotPtr node)
        generalize (db₂.setQueueTail saved).setStatus ((db₂.setQueueTail saved).slotPtr node)
          statusUsed = db₃ at hstatus ⊢
        have hcrc := hstatus.crcStore node (hstatus.slotPtr node)
        exact (hcrc.trans (frame_efSbQueueLockRelease _)).markMetaDirty
      rcases db₁.efSlotAtOffset saved with _ | i
      · rcases db₁.efSlotAtOffset db₁.sb.queueHead with _ | i
        · exact hrest db₁ hlock
        · exact hrest _ (hclear i _)
      · exact hrest _ (hclear i _)
  | _ => exact hlock

/-- The inverse of a pop.
Source: `ef_queue.c`, `ef_queue_restore_before_pop` -/
lemma frame_efQueueRestoreBeforePop (off tail next : ℕ) :
    Frame db (db.efQueueRestoreBeforePop off tail next).2 := by
  have hlock := frame_efQueueLockAcquire db
  unfold efQueueRestoreBeforePop
  generalize db.efQueueLockAcquire = r at hlock ⊢
  obtain ⟨e, db₁⟩ := r
  have hlock : Frame db db₁ := hlock
  have hrelease := hlock.trans (frame_efSbQueueLockRelease db₁)
  cases e with
  | ok =>
      simp only
      rcases db₁.efSlotAtOffset db₁.sb.queueHead with _ | dummy
      · exact hrelease
      rcases db₁.efSlotAtOffset off with _ | node
      · exact hrelease
      have hd := hlock.slotPtr dummy
      have hn := hlock.slotPtr node
      simp only
      generalize db₁.slotPtr dummy = p at hd ⊢
      generalize db₁.slotPtr node = q at hn ⊢
      have hdummy : Frame db ((db₁.setNext p off).efSlotHeaderCrcStore dummy p) :=
        (hlock.setNext hd).crcStore dummy hd
      generalize (db₁.setNext p off).efSlotHeaderCrcStore dummy p = db₂ at hdummy ⊢
      have hnode : Frame db ((db₂.setNext q next).setStatus q statusQueued) :=
        (hdummy.setNext hn).setStatus hn
      generalize (db₂.setNext q next).setStatus q statusQueued = db₃ at hnode ⊢
      have hcrc := hnode.crcStore node hn
      exact (hcrc.setQueueTail.trans (frame_efSbQueueLockRelease _)).markMetaDirty
  | _ => exact hlock

/-! ### The free list of an opened image -/

/-- The checksum of the superblock is computed and stored.
Source: `endfields.c`, `ef_sb_checksum_store` -/
lemma frame_efSbChecksumStore : Frame db db.efSbChecksumStore := by
  unfold efSbChecksumStore
  split_ifs
  · exact (Frame.refl db).setChecksum
  · exact (Frame.refl db).setChecksum

/-- All checksums are brought up to date.
Source: `endfields.c`, `ef_db_refresh_checksums` -/
lemma frame_efDbRefreshChecksums : Frame db db.efDbRefreshChecksums :=
  (frame_efDbRefreshSlotCrcs db).trans (frame_efSbChecksumStore _)

/-- The free list is built anew, slot by slot.
Source: `endfields.c`, `ef_rebuild_free_list` -/
lemma frame_rebuildFreeListLoop (count n : ℕ) : Frame db (db.rebuildFreeListLoop count n).1 := by
  induction n generalizing db count with
  | zero => exact Frame.refl db
  | succ n ih =>
      have hslot : Frame db (db.rebuildFreeSlot n count).1 := by
        unfold rebuildFreeSlot
        split_ifs
        · exact Frame.setFreeListHead (Frame.setNext (Frame.refl db) (slotPtr_ge db n))
        · exact Frame.refl db
      unfold rebuildFreeListLoop
      generalize db.rebuildFreeSlot n count = r at hslot ⊢
      obtain ⟨db₁, count₁⟩ := r
      exact Frame.trans hslot (ih db₁ count₁)

/-- The schema is set on images without one only. -/
lemma frame_efUpgradeSuperblock (v : ℕ) : Frame db (db.efUpgradeSuperblock v) := by
  unfold efUpgradeSuperblock
  refine Frame.trans (Frame.setFreeCount ?_) (frame_efSbChecksumStore _)
  split_ifs with hs
  · unfold setSchemaVersion setFlags Db.store
    rw [withMem_withMem]
    refine (Frame.refl db).withMem (fun hr => ?_) fun x hx _ => ?_
    · have hge := hr.1
      rw [hs] at hge
      exact absurd hge (by norm_num)
    · rw [store_apply_of_outside (.inr (by omega))]
      exact store_apply_of_outside (.inr (by omega))
  · exact Frame.refl db

/-- The free list of an opened image is built anew.
Source: `endfields.c`, `ef_rebuild_free_list` -/
lemma frame_efRebuildFreeList : Frame db db.efRebuildFreeList := by
  unfold efRebuildFreeList
  simp only
  have hloop := Frame.trans (Frame.setFreeListHead (v := 0) (Frame.refl db))
    (frame_rebuildFreeListLoop (db.setFreeListHead 0) 0 db.rebuildRounds)
  generalize (db.setFreeListHead 0).rebuildFreeListLoop 0 db.rebuildRounds = r at hloop ⊢
  obtain ⟨db₁, count⟩ := r
  exact (Frame.trans hloop (frame_efUpgradeSuperblock db₁ count)).trans
    (frame_efDbRefreshChecksums _)

end Db

end Endfields.Model
