import Endfields.Model.Txn

/-!
# Opening, syncing, upgrading

The open path of `endfields.c`: validation of the superblock, the initial image, migration of schema
v3 and v4 files, recovery, and the rebuilt free list; `ef_open_memory_hash` and `ef_open_ex_hash` on
top of it. A file is its bytes and its size; a size of `0` is a new file. At the end `ef_upgrade` of
`ef_grow.c`.
-/

namespace Endfields.Model

open Endfields.Lib

/-- Source: `endfields.c`, `ef_magic_valid` -/
def efMagicValid (m : Mem) : Bool := (Superblock.read m).magic = sbMagic

/-- Source: `endfields.c`, `ef_validate_superblock` -/
def efValidateSuperblock (m : Mem) (fileSize : ℕ) : Err :=
  let sb := Superblock.read m
  if efMagicValid m = false then .badMagic
  else if sb.slotSize ≠ 64 then .badSlotSize
  else if schemaVersion < sb.schemaVersion then .badVersion
  else if efHashCapacityValid (efHashCapacityFromSb m) = false then .badVersion
  else
    let undoLogSlots := if sb.schemaVersion = schemaVersion then undoLogDefaultSlots else 0
    -- the header of the undo segment is counted for every schema
    let expected := efExpectedFileSize sb.maxSlots (efHashCapacityFromSb m) undoLogSlots
    if sb.schemaVersion = schemaVersion ∧ fileSize ≠ expected then .fileSize
    else if sb.schemaVersion ≠ schemaVersion ∧ fileSize < expected then .fileSize
    else if Db.efSbChecksumValid m = false then .badChecksum
    else .ok

namespace Db

/-- A handle fresh from `calloc`, bound to a mapping.
Source: `endfields.c`, `ef_db_bind_io` on a new handle -/
def fresh (m : Mem) (fileSize mapCapacity : ℕ) (backend : Backend) (env : Env) : Db :=
  efDbBindSlotsLayout
    { mem := m
      isMapped := true
      fileSize := fileSize
      mapCapacity := mapCapacity
      backend := backend
      hashCapacity := 0
      slotsBase := 64
      slotsBase_eq := rfl
      hashEntryCount := 0
      readonly := false
      sbMetaDirty := false
      indexSeq := 0
      txnState := txnStateNone
      txnActive := false
      txnWriterPid := 0
      undoLogBase := 0
      undoLogSlots := 0
      undoTail := 0
      undoRecordCount := 0
      lastErr := .ok
      env := env }

/-! ## A new image -/

/-- Source: `endfields.c`, `ef_init_superblock` -/
def efInitSuperblock (db : Db) (maxSlots hashCapacity : ℕ) : Db :=
  let db := db.store 0 4 sbMagic
  let db := db.store 4 4 64
  let db := db.setMaxSlots maxSlots
  let db := db.setFreeListHead 0
  let db := db.setSchemaVersion schemaVersion
  let db := db.setFlags 3
  let db := db.setFreeCount maxSlots
  let db := db.zero 36 28
  let db := db.efSbHashCapacityStore hashCapacity
  db.efSbChecksumStore

/-- Source: `endfields.c`, `ef_build_free_list` (one slot) -/
def buildFreeSlot (db : Db) (i : ℕ) : Db :=
  let p := db.slotPtr i
  let db := db.setStatus p statusFree
  let db := db.zero (p + 8) 48
  db.setNext p (if i + 1 < db.sb.maxSlots then db.efSlotToOffset (i + 1) else 0)

/-- The loop of `ef_build_free_list` over the first `n` slots. -/
def buildFreeListLoop (db : Db) : ℕ → Db
  | 0 => db
  | n + 1 => (buildFreeListLoop db n).buildFreeSlot n

/-- Source: `endfields.c`, `ef_build_free_list` -/
def efBuildFreeList (db : Db) : Db :=
  let maxSlots := db.sb.maxSlots
  let db := db.setFreeListHead 0
  if maxSlots = 0 then db.setFreeCount 0
  else
    let db := db.buildFreeListLoop maxSlots
    let db := db.setFreeListHead (db.efSlotToOffset 0)
    let db := db.setFreeCount maxSlots
    db.efDbRefreshChecksums

/-! ## An existing image -/

/-- One round of the loop of `ef_rebuild_free_list`, with the count of free slots so far. -/
def rebuildFreeSlot (db : Db) (i count : ℕ) : Db × ℕ :=
  if (db.slot i).status = statusFree then
    let db := db.setNext (db.slotPtr i) db.sb.freeListHead
    (db.setFreeListHead (db.efSlotToOffset i), count + 1)
  else (db, count)

/-- The loop of `ef_rebuild_free_list`, from slot `n - 1` down to slot `0`. -/
def rebuildFreeListLoop (db : Db) (count : ℕ) : ℕ → Db × ℕ
  | 0 => (db, count)
  | n + 1 =>
      let (db, count) := db.rebuildFreeSlot n count
      db.rebuildFreeListLoop count n

/-- Source: `endfields.c`, `ef_upgrade_superblock` -/
def efUpgradeSuperblock (db : Db) (freeCount : ℕ) : Db :=
  let db := if db.sb.schemaVersion = 0 then (db.setSchemaVersion schemaLegacy).setFlags 0 else db
  (db.setFreeCount freeCount).efSbChecksumStore

/-- Source: `ef_sb_layout.c`, `ef_sb_migrate_v3_index_layout`, on a schema v3 superblock -/
def efSbMigrateV3IndexLayout (db : Db) : Err × Db :=
  let hash32 := load db.mem 56 4
  if 0xFFFF < hash32 then (.badVersion, db)
  else
    let queueLock8 := if load db.mem 60 4 ≠ 0 then 1 else 0
    let db := db.zero 56 8
    let db := db.efSbHashCapacityStore hash32
    let db := db.setQueueLock queueLock8
    let db := db.setIndexWriteLock 0
    (.ok, db.setSchemaVersion schemaVersionV4)

/-- Source: `ef_sb_layout.c`, `ef_sb_migrate_v4_txn_layout`, on a schema v4 superblock -/
def efSbMigrateV4TxnLayout (db : Db) : Db := (db.zero 60 4).setSchemaVersion schemaVersion

/-- The migration steps of `ef_db_init_mapped`. -/
def migrate (db : Db) : Err × Db :=
  let migrated : Err × Db :=
    if db.sb.schemaVersion = schemaVersionV3 ∧ 0 < efSbHashCapacityLoad db.mem then
      match db.efSbMigrateV3IndexLayout with
      | (.ok, db) => (.ok, db.efDbBindSlotsLayout.efDbMarkMetaDirty)
      | (err, db) => (err, db)
    else (.ok, db)
  match migrated with
  | (.ok, db) =>
      if db.sb.schemaVersion = schemaVersionV4 then
        let db := db.efSbMigrateV4TxnLayout.efDbMarkMetaDirty
        let slotsEnd := (db.slotsBase + db.sb.maxSlots * 64) % u64
        if (slotsEnd + undoLogBytes db.undoLogSlots) % u64 ≤ db.fileSize then
          (.ok, db.zero slotsEnd (undoLogBytes db.undoLogSlots))
        else (.ok, db)
      else (.ok, db)
  | (err, db) => (err, db)

/-- The slots that `ef_build_free_list` stores to reach out of every mapping from `2 ^ 57` on, where
the size has wrapped or not.
Source: `endfields.c`, `ef_db_init_mapped` for a new image -/
def efDbInitNew (db : Db) (initialSlots hashCapacity : ℕ) : Err × Db :=
  if efHashCapacityValid hashCapacity = false then (.badVersion, db)
  else if objectMax ≤ 64 * initialSlots then (.fault, db)
  else
    let db := db.efInitSuperblock initialSlots hashCapacity
    let db := db.efDbBindSlotsLayout
    let db := db.zero 64 (db.hashCapacity * 16)
    let db := db.zero db.slotsBase (db.sb.maxSlots * 64 % u64)
    (.ok, db.efBuildFreeList)

/-- The number of rounds of `ef_rebuild_free_list`; its loop counter is a signed 64-bit number, so a
slot count above `2 ^ 63` gives none. -/
def rebuildRounds (db : Db) : ℕ :=
  if db.sb.maxSlots ≤ objectMax then db.sb.maxSlots else 0

/-- Source: `endfields.c`, `ef_rebuild_free_list` -/
def efRebuildFreeList (db : Db) : Db :=
  let (db, freeCount) := (db.setFreeListHead 0).rebuildFreeListLoop 0 db.rebuildRounds
  (db.efUpgradeSuperblock freeCount).efDbRefreshChecksums

/-- The rounds of `ef_rebuild_free_list`, or the loop over the checksums behind them (an image of
schema `0` has none), reach out of every mapping. -/
def rebuildFaults (db : Db) : Bool :=
  objectMax ≤ 64 * db.rebuildRounds ∨
    (db.sb.slotCrc ∧ db.sb.schemaVersion ≠ 0 ∧ objectMax ≤ 64 * db.sb.maxSlots)

/-- Source: `endfields.c`, `ef_db_init_mapped` for an existing image -/
def efDbInitExisting (db : Db) : Err × Db :=
  match efValidateSuperblock db.mem db.fileSize with
  | .ok =>
      if db.readonly then (.ok, db)
      else
        match db.efDbBindSlotsLayout.migrate with
        | (.ok, db) =>
            match if schemaVersion ≤ db.sb.schemaVersion then db.efTxnRecoverFromStaleLock
              else (.ok, db) with
            | (.ok, db) =>
                if db.rebuildFaults then (.fault, db)
                else
                  let db := db.efRebuildFreeList
                  let v5Size :=
                    efExpectedFileSize db.sb.maxSlots (efHashCapacityFromSb db.mem) db.undoLogSlots
                  if db.fileSize < v5Size then
                    if db.backend = .file then (.fileSize, db)
                    else (.ok, { db with fileSize := v5Size })
                  else (.ok, db)
            | (err, db) => (err, db)
        | (err, db) => (err, db)
  | err => (err, db)

/-! ## The entry points -/

/-- Open a database in a buffer. An error comes with the buffer as it is left.
Source: `endfields.c`, `ef_open_memory_hash` -/
def efOpenMemoryHash (buffer : Mem) (bufferSize maxSlots hashCapacity : ℕ) (initNew : Bool)
    (env : Env) : Err × Db :=
  let unopened := fresh buffer 0 bufferSize .memory env
  if efHashCapacityValid hashCapacity = false then (.badVersion, unopened)
  else
    let sb := Superblock.read buffer
    let probed : Bool := !initNew ∧ efMagicValid buffer ∧ sb.slotSize = 64
    let onDiskNeed := efExpectedFileSize sb.maxSlots (efHashCapacityFromSb buffer)
      (if sb.schemaVersion = schemaVersion then undoLogDefaultSlots else 0)
    if probed ∧ bufferSize < onDiskNeed then (.fileSize, unopened)
    else
      let need := if probed then onDiskNeed
        else efExpectedFileSize maxSlots hashCapacity undoLogDefaultSlots
      let maxSlots := if probed then sb.maxSlots else maxSlots
      if bufferSize < need then (.fileSize, unopened)
      else if env.mallocFails then (.oom, unopened)
      else if need = 0 then (.nullArg, unopened)
      else
        let buffer := if initNew then memset buffer 0 0 need else buffer
        let db := fresh buffer need bufferSize .memory env
        match if initNew then db.efDbInitNew maxSlots hashCapacity else db.efDbInitExisting with
        | (.ok, db) => (.ok, db.setError .ok)
        | (err, db) => (err, db)

/-- Open a file, given as its bytes and its size, for reading and writing. An error comes with the
file as it is left.
Source: `endfields.c`, `ef_open_ex_hash`, with `ef_port_open_file` -/
def efOpenExHash (file : Mem) (size initialSlots hashCapacity : ℕ) (env : Env) : Err × Db :=
  let unopened := fresh file size size .file env
  if efHashCapacityValid hashCapacity = false then (.badVersion, unopened)
  else if env.mallocFails then (.oom, unopened)
  else
    let isNew : Bool := size = 0
    let mapSize := if isNew then efExpectedFileSize initialSlots hashCapacity undoLogDefaultSlots
      else size
    let db := fresh (if isNew then memset file 0 0 mapSize else file) mapSize mapSize .file env
    let grown : Err × Db :=
      if isNew = false ∧ db.sb.schemaVersion < schemaVersion then
        let v5Size :=
          efExpectedFileSize db.sb.maxSlots (efHashCapacityFromSb db.mem) undoLogDefaultSlots
        if db.fileSize < v5Size then
          match db.efPortGrowFile v5Size with
          | (.ok, db) => (.ok, db.efDbBindSlotsLayout)
          | (err, db) => (err, db)
        else (.ok, db)
      else (.ok, db)
    match grown with
    | (.ok, db) =>
        match if isNew then db.efDbInitNew initialSlots hashCapacity else db.efDbInitExisting with
        | (.ok, db) => (.ok, db.setError .ok)
        | (err, db) => (err, db)
    | (err, db) => (err, db)

/-- A new database in a zeroed buffer of just its size, with nothing interfering. -/
def newMemory (maxSlots hashCapacity : ℕ) : Db :=
  (efOpenMemoryHash (fun _ => 0) (efExpectedFileSize maxSlots hashCapacity undoLogDefaultSlots)
    maxSlots hashCapacity true Env.quiet).2

/-- Source: `endfields.c`, `ef_sync` (`ef_sync_ex` in full mode), with `ef_port_sync` -/
def efSync (db : Db) : Err × Db :=
  match db.efDbCommitMeta with
  | (.ok, db) =>
      let err := if db.backend = .memory ∨ db.readonly then .ok else db.env.syncErr
      (err, db.setError err)
  | (err, db) => (err, db)

/-- Close a handle: the bytes of the image are left, with the metadata brought up to date.
Source: `endfields.c`, `ef_close` -/
def efClose (db : Db) : Db := if db.readonly then db else db.efDbCommitMeta.2

/-! ## Upgrading -/

/-- One round of the loop of `ef_upgrade_slots_v1_to_v2`: the 52 bytes from the checksum on are
taken for the payload. -/
def upgradeSlot (db : Db) (i : ℕ) : Db :=
  let p := db.slotPtr i
  if (db.slot i).status = statusUsed then
    let legacy := readBytes db.mem (p + 4) 52
    let db := db.zero (p + 8) 48
    let db := db.copyIn (p + 8) (legacy.take 48)
    (db.setHeaderCrc p 0).efSlotHeaderCrcStore i p
  else if (db.slot i).status = statusFree then db.setHeaderCrc p 0
  else db

/-- The loop of `ef_upgrade_slots_v1_to_v2` over the first `n` slots. -/
def upgradeSlotsLoop (db : Db) : ℕ → Db
  | 0 => db
  | n + 1 => (upgradeSlotsLoop db n).upgradeSlot n

/-- Source: `ef_grow.c`, `ef_upgrade_slots_v1_to_v2` -/
def efUpgradeSlotsV1ToV2 (db : Db) : Err × Db := (.ok, db.upgradeSlotsLoop db.sb.maxSlots)

/-- Source: `ef_grow.c`, `ef_needs_upgrade` -/
def efNeedsUpgrade (db : Db) : Bool :=
  if db.sb.schemaVersion = schemaVersion ∨ db.sb.schemaVersion = schemaVersionV3 ∨
      db.sb.schemaVersion = schemaVersionV2 then
    db.sb.flags &&& 3 ≠ 3
  else db.sb.schemaVersion = 0 ∨ db.sb.schemaVersion = schemaLegacy

/-- Source: `ef_grow.c`, `ef_upgrade` -/
def efUpgrade (db : Db) : Err × Db :=
  match db.efDbRequireWrite with
  | (.ok, db) =>
      if db.efNeedsUpgrade = false then (.ok, db.setError .ok)
      else if db.sb.schemaVersion ≠ schemaVersion ∧ db.sb.schemaVersion ≠ schemaVersionV3 ∧
          db.sb.schemaVersion ≠ schemaVersionV2 ∧ db.sb.schemaVersion ≠ schemaLegacy ∧
            db.sb.schemaVersion ≠ 0 then
        (.badVersion, db.setError .badVersion)
      else
        match db.efUpgradeSlotsV1ToV2 with
        | (.ok, db) =>
            let db := (db.setSchemaVersion schemaVersion).setFlags 3
            (.ok, db.efDbRefreshChecksums.setError .ok)
        | (err, db) => (err, db.setError err)
  | (err, db) => (err, db)

end Db

end Endfields.Model
