import Endfields.Model.Crc

/-!
# Superblock accessors, metadata checksum and locks

`ef_sb_layout.c` and the superblock part of `endfields.c`. The spin loops of the lock functions are
read sequentially: an attempt succeeds when the lock byte is clear and fails with the busy code when
the byte stays set, or when the environment reports that another party held the lock through all
spins (`Env.contention`).
-/

namespace Endfields.Model

open Endfields.Lib

/-- Superblock checksums are kept.
Source: `endfields.h`, `EF_FLAG_SB_CRC` -/
def Superblock.sbCrc (sb : Superblock) : Bool := sb.flags.testBit flagSbCrcBit

/-- Slot header checksums are kept.
Source: `endfields.h`, `EF_FLAG_SLOT_CRC` -/
def Superblock.slotCrc (sb : Superblock) : Bool := sb.flags.testBit flagSlotCrcBit

/-- The hash capacity stored in the superblock: 16 bits from schema v5 on, 32 bits before.
Source: `ef_sb_layout.c`, `ef_sb_hash_capacity_load` -/
def efSbHashCapacityLoad (m : Mem) : ℕ :=
  if schemaVersion ≤ (Superblock.read m).schemaVersion then load m 56 2
  else if schemaVersionV3 ≤ (Superblock.read m).schemaVersion then load m 56 4
  else 0

/-- Source: `endfields.c`, `ef_hash_capacity_from_sb` -/
def efHashCapacityFromSb (m : Mem) : ℕ :=
  if (Superblock.read m).schemaVersion < schemaVersionV3 then 0 else efSbHashCapacityLoad m

/-- Source: `endfields.c`, `ef_hash_capacity_valid` -/
def efHashCapacityValid (hashCapacity : ℕ) : Bool :=
  if hashCapacity = 0 then true
  else if 0xFFFF < hashCapacity then false
  else hashCapacity &&& (hashCapacity - 1) = 0

/-- The file size of a layout, in 64-bit arithmetic.
Source: `endfields.c`, `ef_expected_file_size` -/
def efExpectedFileSize (maxSlots hashCapacity undoLogSlots : ℕ) : ℕ :=
  (64 + hashCapacity * 16 + maxSlots * 64 + 32 + undoLogSlots * 32) % u64

namespace Db

/-- Source: `ef_sb_layout.c`, `ef_sb_hash_capacity_store` -/
def efSbHashCapacityStore (db : Db) (hashCapacity : ℕ) : Db :=
  db.setHashCap (if 0xFFFF < hashCapacity then 0xFFFF else hashCapacity)

/-! ## Metadata -/

/-- Source: `endfields.c`, `ef_sb_checksum_store` -/
def efSbChecksumStore (db : Db) : Db :=
  if db.sb.sbCrc then db.setChecksum (efSbChecksumCompute db.mem) else db.setChecksum 0

/-- Source: `endfields.c`, `ef_sb_checksum_valid` -/
def efSbChecksumValid (m : Mem) : Bool :=
  if (Superblock.read m).sbCrc then
    (Superblock.read m).checksum ≠ 0 ∧ (Superblock.read m).checksum = efSbChecksumCompute m
  else true

/-- Source: `endfields.c`, `ef_db_mark_meta_dirty` -/
def efDbMarkMetaDirty (db : Db) : Db :=
  { db with sbMetaDirty := db.sbMetaDirty || (!db.readonly && db.sb.sbCrc) }

/-- Source: `endfields.c`, `ef_db_commit_meta` -/
def efDbCommitMeta (db : Db) : Err × Db :=
  if db.readonly then (.ok, db.setError .ok)
  else if db.sbMetaDirty then
    (.ok, ({ db.efSbChecksumStore with sbMetaDirty := false } : Db).setError .ok)
  else (.ok, db.setError .ok)

/-- Source: `endfields.c`, `ef_db_require_write` -/
def efDbRequireWrite (db : Db) : Err × Db :=
  if db.readonly then (.readonly, db.setError .readonly) else (.ok, db)

/-- Source: `endfields.c`, `ef_sb_free_count_inc` -/
def efSbFreeCountInc (db : Db) : Db := db.setFreeCount ((db.sb.freeCount + 1) % u32)

/-- Source: `endfields.c`, `ef_sb_free_count_dec` -/
def efSbFreeCountDec (db : Db) : Db := db.setFreeCount ((db.sb.freeCount + (u32 - 1)) % u32)

/-! ## Locks -/

/-- Ask the environment about the next lock attempt. -/
def contended (db : Db) : Bool × Db :=
  match db.env.contention with
  | [] => (false, db)
  | c :: cs => (c, { db with env := { db.env with contention := cs } })

/-- Source: `ef_sb_layout.c`, `ef_sb_queue_lock_acquire` -/
def efSbQueueLockAcquire (db : Db) : Err × Db :=
  let (busy, db) := db.contended
  if db.sb.schemaVersion < schemaVersion then
    if busy ∨ load db.mem 60 4 ≠ 0 then (.queueBusy, db) else (.ok, db.store 60 4 1)
  else if busy ∨ db.sb.queueLock ≠ 0 then (.queueBusy, db) else (.ok, db.setQueueLock 1)

/-- Source: `ef_sb_layout.c`, `ef_sb_queue_lock_release` -/
def efSbQueueLockRelease (db : Db) : Db :=
  if db.sb.schemaVersion < schemaVersion then db.store 60 4 0 else db.setQueueLock 0

/-- Source: `ef_sb_layout.c`, `ef_sb_index_write_lock_acquire` -/
def efSbIndexWriteLockAcquire (db : Db) : Err × Db :=
  if db.sb.schemaVersion < schemaVersion then (.badVersion, db)
  else
    let (busy, db) := db.contended
    if busy ∨ db.sb.indexWriteLock ≠ 0 then (.indexBusy, db) else (.ok, db.setIndexWriteLock 1)

/-- Source: `ef_sb_layout.c`, `ef_sb_index_write_lock_release` -/
def efSbIndexWriteLockRelease (db : Db) : Db :=
  if db.sb.schemaVersion < schemaVersion then db else db.setIndexWriteLock 0

/-- Source: `ef_sb_layout.c`, `ef_sb_txn_lock_try_acquire` -/
def efSbTxnLockTryAcquire (db : Db) : Err × Db :=
  if db.sb.schemaVersion < schemaVersion then (.badVersion, db)
  else
    let (busy, db) := db.contended
    if busy ∨ db.sb.txnLock ≠ 0 then (.txnBusy, db) else (.ok, db.setTxnLock 1)

/-- Source: `ef_sb_layout.c`, `ef_sb_txn_lock_release` -/
def efSbTxnLockRelease (db : Db) : Db :=
  if db.sb.schemaVersion < schemaVersion then db else db.setTxnLock 0

/-- Source: `ef_sb_layout.c`, `ef_sb_txn_state_load` -/
def efSbTxnStateLoad (db : Db) : ℕ :=
  if db.sb.schemaVersion < schemaVersion then 0 else db.sb.txnState

/-- Source: `ef_sb_layout.c`, `ef_sb_txn_state_store` -/
def efSbTxnStateStore (db : Db) (state : ℕ) : Db :=
  if db.sb.schemaVersion < schemaVersion then db else db.setTxnState state

/-- Source: `ef_sb_layout.c`, `ef_sb_index_write_seq_begin` and `ef_sb_index_write_seq_end`, which
advance the handle's sequence number alike -/
def efSbIndexWriteSeqStep (db : Db) : Db :=
  if db.sb.schemaVersion < schemaVersion then db
  else { db with indexSeq := (db.indexSeq + 1) % u32 }

/-- Source: `ef_index.c`, `ef_index_write_begin` -/
def efIndexWriteBegin (db : Db) : Err × Db :=
  if db.sb.schemaVersion < schemaVersion then (.ok, db)
  else
    match db.efSbIndexWriteLockAcquire with
    | (.ok, db) => (.ok, db.efSbIndexWriteSeqStep)
    | (err, db) => (err, db)

/-- Source: `ef_index.c`, `ef_index_write_end` -/
def efIndexWriteEnd (db : Db) : Db :=
  if db.sb.schemaVersion < schemaVersion then db
  else db.efSbIndexWriteSeqStep.efSbIndexWriteLockRelease

end Db

end Endfields.Model
