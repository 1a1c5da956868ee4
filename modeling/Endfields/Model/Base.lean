import Endfields.Lib.Bytes

/-!
# The data model: error codes, the mapped structures and the handle

* `Err` is `enum ef_err`; the status, flag, schema and state constants keep their C values.
* `Superblock`, `Slot`, `HashEntry` and `UndoHeader` are the packed C structures, read out of the
  mapped bytes at their C offsets (`Superblock.read`, `Slot.read`, …). Nothing is stored twice: a
  structure is always a reading of `Db.mem`, so two structures that overlap in the file overlap
  here too.
* `Db` is `struct ef_db` together with the bytes it maps. A slot pointer is the address of the
  slot inside the mapping, and stays what it was when the slot region moves.
* `Env` is what the handle does not decide: outcomes of contended lock attempts, of the allocator
  and of the operating system's file calls, and the addresses at which the system maps a file.
* `Err.fault` is no code of the library: it is the outcome of a call that reads or stores where
  there is no mapping, and so does not return.

A handle is always bound: `slots_base` is assigned together with `hash_capacity`, in
`ef_db_bind_slots_layout` and `ef_index_bind_layout` and nowhere else, and `Db.slotsBase_eq`
carries the relation between the two.
-/

namespace Endfields.Model

open Endfields.Lib

/-! ## Constants -/

/-- The error codes of the library, and `fault` for a call that does not return, because it reads or
stores through a pointer that leads out of the mapping.
Source: `endfields.h`, `enum ef_err` -/
inductive Err
  | ok | nullArg | io | mmap | oom | badMagic | badVersion | badChecksum | badSlotSize
  | fileSize | slotId | offset | payloadLen | opcode | slotFree | slotBusy | slotFull | notFound
  | chaseDepth | chaseCycle | readonly | grow | queueEmpty | queueBusy | indexFull | indexBusy
  | userAbort | txnBusy | txnLogFull | fault
  deriving DecidableEq, Repr

/-- Source: `endfields.h`, `enum ef_backend` (a bound handle is never `EF_BACKEND_NONE`) -/
inductive Backend
  | file | memory
  deriving DecidableEq, Repr

/-- Slot statuses. A slot's status word is any 32-bit value; these are the ones with a meaning.
Source: `endfields.h`, `EF_STATUS_*` -/
@[simp] def statusFree : ℕ := 0
@[simp] def statusUsed : ℕ := 1
@[simp] def statusOverflow : ℕ := 2
@[simp] def statusQueued : ℕ := 3
@[simp] def statusQueueDummy : ℕ := 4
@[simp] def statusQueueLink : ℕ := 5
@[simp] def statusQueueDeq : ℕ := 6

/-- Superblock flags, as bit numbers of the flags word.
Source: `endfields.h`, `EF_FLAG_SB_CRC`, `EF_FLAG_SLOT_CRC` -/
@[simp] def flagSbCrcBit : ℕ := 0
@[simp] def flagSlotCrcBit : ℕ := 1

/-- Source: `ef_config.h`, `EF_SCHEMA_VERSION*`; `endfields.c`, `EF_SCHEMA_LEGACY` -/
@[simp] def schemaVersion : ℕ := 5
@[simp] def schemaVersionV4 : ℕ := 4
@[simp] def schemaVersionV3 : ℕ := 3
@[simp] def schemaVersionV2 : ℕ := 2
@[simp] def schemaLegacy : ℕ := 1

/-- Source: `endfields.h`, `EF_TXN_STATE_*`, `EF_TXN_WRITER_NONE` -/
@[simp] def txnStateNone : ℕ := 0
@[simp] def txnStateActive : ℕ := 1
@[simp] def txnStateAborting : ℕ := 2
@[simp] def txnWriterNone : ℕ := 0xFFFFFFFF

/-- Source: `ef_config.h`, `EF_UNDO_LOG_DEFAULT_SLOTS` -/
@[simp] def undoLogDefaultSlots : ℕ := 4096

/-- Bytes of the undo segment for a number of records.
Source: `ef_config.h`, `EF_UNDO_LOG_BYTES` -/
@[simp] def undoLogBytes (slots : ℕ) : ℕ := 32 + slots * 32

/-- The four magic bytes `ENDF`, as the little-endian word they form.
Source: `endfields.h`, `EF_MAGIC_0` … `EF_MAGIC_3` -/
@[simp] def sbMagic : ℕ := 0x46444E45

/-- Source: `ef_undo.h`, `EF_UNDO_HEADER_MAGIC` -/
@[simp] def undoHeaderMagic : ℕ := 0x4F444E55

/-- The range of a 64-bit word. -/
def u64 : ℕ := 18446744073709551616

/-- The range of a 32-bit word. -/
def u32 : ℕ := 4294967296

/-- The bound on the size of any object, and so of any mapping (`PTRDIFF_MAX + 1`). -/
def objectMax : ℕ := 9223372036854775808

/-! ## The mapped structures -/

/-- The superblock, with the schema v5 fields of its `reserved` area.
Source: `endfields.h`, `struct ef_superblock`; `ef_sb_layout.h` -/
structure Superblock where
  magic : ℕ
  slotSize : ℕ
  maxSlots : ℕ
  freeListHead : ℕ
  schemaVersion : ℕ
  flags : ℕ
  freeCount : ℕ
  checksum : ℕ
  queueHead : ℕ
  queueTail : ℕ
  hashCap : ℕ
  queueLock : ℕ
  indexWriteLock : ℕ
  txnLock : ℕ
  txnState : ℕ
  padding : ℕ
  deriving DecidableEq, Repr

/-- The superblock of a mapping: its first 64 bytes. -/
def Superblock.read (m : Mem) : Superblock where
  magic := load m 0 4
  slotSize := load m 4 4
  maxSlots := load m 8 8
  freeListHead := load m 16 8
  schemaVersion := load m 24 4
  flags := load m 28 4
  freeCount := load m 32 4
  checksum := load m 36 4
  queueHead := load m 40 8
  queueTail := load m 48 8
  hashCap := load m 56 2
  queueLock := load m 58 1
  indexWriteLock := load m 59 1
  txnLock := load m 60 1
  txnState := load m 61 1
  padding := load m 62 2

/-- A 64-byte slot.
Source: `endfields.h`, `struct ef_slot` -/
structure Slot where
  status : ℕ
  headerCrc : ℕ
  payload : List UInt8
  nextOffset : ℕ
  deriving DecidableEq, Repr

/-- The slot at address `p`. -/
def Slot.read (m : Mem) (p : ℕ) : Slot where
  status := load m p 4
  headerCrc := load m (p + 4) 4
  payload := readBytes m (p + 8) 48
  nextOffset := load m (p + 56) 8

/-- A bucket of the hash index.
Source: `ef_index.h`, `struct ef_hash_entry` -/
structure HashEntry where
  keyHash : ℕ
  slotOffset : ℕ
  deriving DecidableEq, Repr

/-- The bucket at address `p`. -/
def HashEntry.read (m : Mem) (p : ℕ) : HashEntry where
  keyHash := load m p 8
  slotOffset := load m (p + 8) 8

/-- The header of the undo segment.
Source: `ef_undo.h`, `struct ef_undo_header` -/
structure UndoHeader where
  magic : ℕ
  crc : ℕ
  tail : ℕ
  recordCount : ℕ
  reserved : ℕ
  pad : List UInt8
  deriving DecidableEq, Repr

/-- The undo header at address `p`. -/
def UndoHeader.read (m : Mem) (p : ℕ) : UndoHeader where
  magic := load m p 4
  crc := load m (p + 4) 4
  tail := load m (p + 8) 8
  recordCount := load m (p + 16) 4
  reserved := load m (p + 20) 4
  pad := readBytes m (p + 24) 8

/-! ## The handle -/

/-- What the environment decides. `contention` lists, for the next lock attempts, whether another
party holds the lock through all of the attempt's spins; with the list used up, an attempt is
decided by the lock byte alone. `growFileErr` is what the resizing of a file or the mapping of it
that follows fails with, and `mapAddr` the address at which a file of a given size is mapped. -/
structure Env where
  contention : List Bool
  mallocFails : Bool
  growFileErr : Option { err : Err // err ≠ .ok }
  mapAddr : ℕ → ℕ
  syncErr : Err
  pid : ℕ
  /-- Bytes of the caller's frame behind a one-byte local, which `ef_write_field` passes where
  eight bytes are read. -/
  stack : List UInt8

/-- An environment in which nothing interferes and every call of the platform succeeds. -/
def Env.quiet : Env where
  contention := []
  mallocFails := false
  growFileErr := none
  mapAddr := fun _ => 0
  syncErr := .ok
  pid := 1
  stack := List.replicate 7 0

/-- An open handle with the bytes it maps. The C pointers `sb`, `hash_index`, `slots` and
`undo_log_mmap` are the addresses `0`, `64`, `slotsBase` and `undoLogBase` of the mapping;
`hash_index` is null exactly when `hashCapacity` is `0`. `isMapped` tells whether these pointers
lead to the mapping: a growth that has unmapped the file and then fails leaves the handle with the
old ones.
Source: `endfields.h`, `struct ef_db` -/
structure Db where
  mem : Mem
  isMapped : Bool
  fileSize : ℕ
  mapCapacity : ℕ
  backend : Backend
  hashCapacity : ℕ
  slotsBase : ℕ
  slotsBase_eq : slotsBase = 64 + hashCapacity * 16
  hashEntryCount : ℕ
  readonly : Bool
  sbMetaDirty : Bool
  indexSeq : ℕ
  txnState : ℕ
  txnActive : Bool
  txnWriterPid : ℕ
  undoLogBase : ℕ
  undoLogSlots : ℕ
  undoTail : ℕ
  undoRecordCount : ℕ
  lastErr : Err
  env : Env

namespace Db

/-- The handle with other bytes mapped. -/
@[simps] def withMem (db : Db) (m : Mem) : Db := { db with mem := m }

/-- Store a word into the mapping. -/
def store (db : Db) (a w v : ℕ) : Db := db.withMem (Lib.store db.mem a w v)

/-- Source: `ef_set_error` -/
@[simps] def setError (db : Db) (err : Err) : Db := { db with lastErr := err }

/-- The superblock, `db->sb`. -/
def sb (db : Db) : Superblock := Superblock.read db.mem

/-- The slot a pointer points to. -/
def slotAt (db : Db) (p : ℕ) : Slot := Slot.read db.mem p

/-- The pointer `db->slots + i`. -/
def slotPtr (db : Db) (i : ℕ) : ℕ := db.slotsBase + 64 * i

/-- The slot with id `i`, `db->slots[i]`. -/
def slot (db : Db) (i : ℕ) : Slot := db.slotAt (db.slotPtr i)

/-- The bucket `db->hash_index[i]`. -/
def entry (db : Db) (i : ℕ) : HashEntry := HashEntry.read db.mem (64 + 16 * i)

/-- The address of the mapping, `db->mmap_addr`. A buffer stays where it is. -/
def mapAddr (db : Db) : ℕ :=
  match db.backend with
  | .file => db.env.mapAddr db.fileSize
  | .memory => 0

/-- The slot region never reaches below the superblock. -/
lemma slotsBase_ge (db : Db) : 64 ≤ db.slotsBase := by
  rw [db.slotsBase_eq]
  omega

@[simp] lemma mem_withMem (db : Db) (m : Mem) : (db.withMem m).mem = m := rfl

@[simp] lemma withMem_withMem (db : Db) (m m' : Mem) : (db.withMem m).withMem m' = db.withMem m' :=
  rfl

/-! ### Stores into the superblock and into slots -/

def setMaxSlots (db : Db) (v : ℕ) : Db := db.store 8 8 v
def setFreeListHead (db : Db) (v : ℕ) : Db := db.store 16 8 v
def setSchemaVersion (db : Db) (v : ℕ) : Db := db.store 24 4 v
def setFlags (db : Db) (v : ℕ) : Db := db.store 28 4 v
def setFreeCount (db : Db) (v : ℕ) : Db := db.store 32 4 v
def setChecksum (db : Db) (v : ℕ) : Db := db.store 36 4 v
def setQueueHead (db : Db) (v : ℕ) : Db := db.store 40 8 v
def setQueueTail (db : Db) (v : ℕ) : Db := db.store 48 8 v
def setHashCap (db : Db) (v : ℕ) : Db := db.store 56 2 v
def setQueueLock (db : Db) (v : ℕ) : Db := db.store 58 1 v
def setIndexWriteLock (db : Db) (v : ℕ) : Db := db.store 59 1 v
def setTxnLock (db : Db) (v : ℕ) : Db := db.store 60 1 v
def setTxnState (db : Db) (v : ℕ) : Db := db.store 61 1 v

/-- `slot->status = v` through the pointer `p`; `setHeaderCrc` and `setNext` alike. -/
def setStatus (db : Db) (p v : ℕ) : Db := db.store p 4 v
def setHeaderCrc (db : Db) (p v : ℕ) : Db := db.store (p + 4) 4 v
def setNext (db : Db) (p v : ℕ) : Db := db.store (p + 56) 8 v

/-- `memset(a, 0, n)` -/
def zero (db : Db) (a n : ℕ) : Db := db.withMem (memset db.mem a 0 n)

/-- `memcpy(a, bs, …)` -/
def copyIn (db : Db) (a : ℕ) (bs : List UInt8) : Db := db.withMem (writeBytes db.mem a bs)

end Db

end Endfields.Model
