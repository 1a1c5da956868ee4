import Endfields.Model.UndoLog

/-!
# The Robin Hood hash index

`ef_index.c`: lookup, insertion with displacement, deletion with backward shift, and the rehash
that relocates the slot region. The loops work in place on the mapped buckets, as the C code does.
A loop bounded in C carries its bound as fuel; the shift loop of the deletion has no bound there,
so it returns `none` when its fuel is used up.
-/

namespace Endfields.Model

open Endfields.Lib

/-- A key as the C string functions see it: the bytes before the first zero byte. -/
def cString (key : List UInt8) : List UInt8 := key.takeWhile (· ≠ 0)

/-- FNV-1a, with `0` replaced by `1`.
Source: `ef_index.c`, `ef_key_hash` -/
def efKeyHash (key : List UInt8) : ℕ :=
  let hash := key.foldl (fun h b => ((h ^^^ b.toNat) * 1099511628211) % u64) 14695981039346656037
  if hash = 0 then 1 else hash

/-- Source: `ef_index.c`, `ef_hash_home` -/
def efHashHome (capacity keyHash : ℕ) : ℕ := keyHash &&& (capacity - 1)

/-- Source: `ef_index.c`, `ef_hash_probe_dist` -/
def efHashProbeDist (capacity home pos : ℕ) : ℕ := (pos + capacity - home) % capacity

/-- Source: `ef_index.c`, `ef_index_slots_base` -/
def efIndexSlotsBase (hashCapacity : ℕ) : ℕ := 64 + hashCapacity * 16

/-- Source: `ef_index.c`, `ef_index_file_size` -/
def efIndexFileSize (maxSlots hashCapacity : ℕ) : ℕ :=
  (64 + hashCapacity * 16 + maxSlots * 64 + undoLogBytes undoLogDefaultSlots) % u64

/-- Source: `ef_index.c`, `ef_index_fixup_offset` -/
def efIndexFixupOffset (offset oldBase newBase : ℕ) : ℕ :=
  if offset = 0 ∨ offset < oldBase then offset else (offset + (newBase + (u64 - oldBase))) % u64

/-- Source: `ef_index.c`, `ef_index_needs_grow` -/
def efIndexNeedsGrow (count capacity : ℕ) : Bool := capacity * 3 < ((count + 1) % u32) * 4

/-! ## Choosing capacities -/

/-- The doubling loop of `ef_index_pick_capacity`. -/
def pickCapacityLoop (entries : ℕ) : ℕ → ℕ → ℕ
  | 0, _ => 0
  | fuel + 1, cap =>
      if cap * 3 / 4 < entries then
        if 0xFFFF >>> 1 < cap then 0 else pickCapacityLoop entries fuel ((cap * 2) % u32)
      else cap

/-- Source: `ef_index.c`, `ef_index_pick_capacity` -/
def efIndexPickCapacity (entries minCapacity : ℕ) : ℕ :=
  let cap := if minCapacity < 16 then 16 else minCapacity
  if 0xFFFF * 3 / 4 < entries then 0 else pickCapacityLoop entries 32 cap

/-- The rounding loop of `ef_index_pick_shrink_capacity`. -/
def roundUpLoop (minRequired : ℕ) : ℕ → ℕ → ℕ
  | 0, cap => cap
  | fuel + 1, cap =>
      if cap < minRequired then roundUpLoop minRequired fuel ((cap * 2) % u32) else cap

/-- The final loop of `ef_index_pick_shrink_capacity`. -/
def shrinkLoop (entries : ℕ) : ℕ → ℕ → ℕ
  | 0, _ => 16
  | fuel + 1, cap =>
      if 16 < cap then
        if entries = 0 then cap
        else if entries ≤ cap * 8 then cap
        else shrinkLoop entries fuel (cap / 2)
      else 16

/-- Source: `ef_index.c`, `ef_index_pick_shrink_capacity` -/
def efIndexPickShrinkCapacity (entries currentCapacity : ℕ) : ℕ :=
  if currentCapacity = 0 ∨ currentCapacity &&& (currentCapacity - 1) ≠ 0 then 0
  else if 0xFFFF < currentCapacity then 0
  else
    let minRequired := (entries * 4) % u32 / 3
    let minRequired :=
      if (minRequired * 3) % u32 < (entries * 4) % u32 then minRequired + 1 else minRequired
    let cap := if 0 < entries then roundUpLoop minRequired 32 16 else 16
    if currentCapacity ≤ cap then 0
    else if entries ≠ 0 ∧ currentCapacity ≤ entries * 8 then 0
    else shrinkLoop entries 32 cap

/-! ## Buckets -/

/-- A bucket is empty when its slot offset is zero.
Source: `ef_index.c`, `ef_hash_entry_empty_atomic` -/
def HashEntry.empty (e : HashEntry) : Bool := e.slotOffset = 0

namespace Db

/-- Source: `ef_index.c`, `ef_hash_entry_store_atomic` -/
def setEntry (db : Db) (i : ℕ) (e : HashEntry) : Db :=
  (db.store (64 + 16 * i) 8 e.keyHash).store (64 + 16 * i + 8) 8 e.slotOffset

/-- The number of occupied buckets among the first `n`. -/
def countEntries (db : Db) : ℕ → ℕ
  | 0 => 0
  | n + 1 => db.countEntries n + if (db.entry n).empty then 0 else 1

/-- The occupied buckets among the first `n`, in table order. -/
def liveEntries (db : Db) (n : ℕ) : List HashEntry :=
  ((List.range n).map db.entry).filter (fun e => !e.empty)

/-- Source: `ef_index.c`, `ef_index_bind_layout` -/
def efIndexBindLayout (db : Db) : Db :=
  let cap := efSbHashCapacityLoad db.mem
  { db with
    hashCapacity := cap
    slotsBase := efIndexSlotsBase cap
    slotsBase_eq := rfl
    hashEntryCount := db.countEntries cap }

/-! ## Lookup, insertion, deletion -/

/-- The insertion loop. `home` and `incoming` belong to the entry that is being placed, which
changes with every displacement, and with it the bound of the loop. -/
def putEntryLoop (keyHash slotOffset : ℕ) : ℕ → ℕ → ℕ → HashEntry → Db → Err × Bool × Db
  | 0, _, _, _, db => (.indexFull, false, db)
  | fuel + 1, i, home, incoming, db =>
      if home + db.hashCapacity ≤ i then (.indexFull, false, db)
      else
        let pos := i % db.hashCapacity
        let cur := db.entry pos
        if cur.empty then (.ok, true, db.setEntry pos incoming)
        else if cur.keyHash = keyHash then (.ok, false, db.setEntry pos ⟨keyHash, slotOffset⟩)
        else if efHashProbeDist db.hashCapacity (efHashHome db.hashCapacity cur.keyHash) pos <
            efHashProbeDist db.hashCapacity home pos then
          putEntryLoop keyHash slotOffset fuel (i + 1) (efHashHome db.hashCapacity cur.keyHash) cur
            (db.setEntry pos incoming)
        else putEntryLoop keyHash slotOffset fuel (i + 1) home incoming db

/-- Insert or update an entry; the flag tells whether a new key was added.
Source: `ef_index.c`, `ef_index_put_entry` -/
def efIndexPutEntry (db : Db) (keyHash slotOffset : ℕ) : Err × Bool × Db :=
  if db.hashCapacity = 0 then (.nullArg, false, db)
  else if db.hashCapacity &&& (db.hashCapacity - 1) ≠ 0 then (.badVersion, false, db)
  else
    let home := efHashHome db.hashCapacity keyHash
    putEntryLoop keyHash slotOffset (2 * db.hashCapacity) home home ⟨keyHash, slotOffset⟩ db

/-- The probe loop shared by lookup and deletion: the bucket that holds the key. -/
def findLoop (db : Db) (keyHash : ℕ) : ℕ → ℕ → Option ℕ
  | 0, _ => none
  | fuel + 1, i =>
      let cur := db.entry (i % db.hashCapacity)
      if cur.empty then none
      else if cur.keyHash = keyHash then some (i % db.hashCapacity)
      else findLoop db keyHash fuel (i + 1)

/-- Source: `ef_index.c`, `ef_index_find_entry_unlocked` -/
def efIndexFindEntryUnlocked (db : Db) (keyHash : ℕ) : Except Err HashEntry :=
  if db.hashCapacity = 0 then .error .nullArg
  else
    match db.findLoop keyHash db.hashCapacity (efHashHome db.hashCapacity keyHash) with
    | none => .error .notFound
    | some pos => .ok (db.entry pos)

/-- Source: `ef_index.c`, `ef_index_find_entry`; read sequentially, the sequence number does not
change during the call, so an even number gives a stable read and an odd one never does -/
def efIndexFindEntry (db : Db) (keyHash : ℕ) : Except Err HashEntry :=
  if db.hashCapacity = 0 then .error .nullArg
  else if db.sb.schemaVersion < schemaVersion then db.efIndexFindEntryUnlocked keyHash
  else if db.indexSeq % 2 = 1 then .error .indexBusy
  else db.efIndexFindEntryUnlocked keyHash

/-- The backward-shift loop of the deletion, from the bucket `pos` to be filled. -/
def shiftLoop : ℕ → ℕ → Db → Option Db
  | 0, _, _ => none
  | fuel + 1, pos, db =>
      let nextPos := (pos + 1) % db.hashCapacity
      let next := db.entry nextPos
      if next.empty ∨
          efHashProbeDist db.hashCapacity (efHashHome db.hashCapacity next.keyHash) nextPos = 0 then
        some (db.setEntry pos ⟨0, 0⟩)
      else shiftLoop fuel nextPos (db.setEntry pos next)

/-- Source: `ef_index.c`, `ef_index_remove_by_hash` -/
def efIndexRemoveByHash (db : Db) (keyHash : ℕ) : Err × Db :=
  if db.hashCapacity = 0 then (.nullArg, db)
  else
    match db.findLoop keyHash db.hashCapacity (efHashHome db.hashCapacity keyHash) with
    | none => (.notFound, db)
    | some pos =>
        match shiftLoop (db.hashCapacity * db.hashCapacity + 1) pos db with
        | none => (.ok, db)
        | some db => (.ok, { db with hashEntryCount := db.hashEntryCount - 1 })

/-! ## Rehash -/

/-- Source: `ef_index.c`, `ef_index_fixup_all_offsets` (one slot) -/
def fixupSlot (db : Db) (oldBase newBase i : ℕ) : Db :=
  let next := (db.slot i).nextOffset
  if oldBase ≤ next then
    db.setNext (db.slotPtr i) ((next + (newBase + (u64 - oldBase))) % u64)
  else db

/-- The slot loop of `ef_index_fixup_all_offsets`. -/
def fixupSlotsLoop (db : Db) (oldBase newBase : ℕ) : ℕ → Db
  | 0 => db
  | n + 1 => (fixupSlotsLoop db oldBase newBase n).fixupSlot oldBase newBase n

/-- Source: `ef_index.c`, `ef_index_fixup_all_offsets` -/
def efIndexFixupAllOffsets (db : Db) (oldBase newBase : ℕ) : Db :=
  let db := db.setFreeListHead (efIndexFixupOffset db.sb.freeListHead oldBase newBase)
  let db := db.setQueueHead (efIndexFixupOffset db.sb.queueHead oldBase newBase)
  let db := db.setQueueTail (efIndexFixupOffset db.sb.queueTail oldBase newBase)
  db.fixupSlotsLoop oldBase newBase db.sb.maxSlots

/-- Re-insert the saved entries into the cleared table, stopping at the first failure. -/
def reinsert (db : Db) : List HashEntry → Err × Db
  | [] => (.ok, db)
  | e :: es =>
      match db.efIndexPutEntry e.keyHash e.slotOffset with
      | (.ok, _, db) => reinsert db es
      | (err, _, db) => (err, db)

/-- Resize the file and map it again; the new bytes read as zero. The old mapping goes first: where
the resizing or the new mapping fails, the pointers of the handle, which the callers do not bind
again, lead nowhere.
Source: `ef_port.c`, `ef_port_grow_file` -/
def efPortGrowFile (db : Db) (newMapSize : ℕ) : Err × Db :=
  if newMapSize ≤ db.fileSize then (.grow, db)
  else
    match db.env.growFileErr with
    | some err => (err.1, { db with isMapped := false })
    | none =>
        (.ok, { db.zero db.fileSize (newMapSize - db.fileSize) with
          fileSize := newMapSize
          mapCapacity := newMapSize })

/-- The critical section of the rehash once the checks have passed: move the slot region, rebind,
translate the offsets and rebuild the table. -/
def rehashMove (db : Db) (newCapacity : ℕ) (backup : List HashEntry) : Err × Db :=
  let oldBase := db.slotsBase
  let newBase := efIndexSlotsBase newCapacity
  let db := db.withMem (memmove db.mem newBase oldBase (db.sb.maxSlots * 64 % u64))
  let db := db.efSbHashCapacityStore newCapacity
  let db := db.efIndexBindLayout
  let db := db.efIndexFixupAllOffsets oldBase newBase
  let backup := backup.map fun e => ⟨e.keyHash, efIndexFixupOffset e.slotOffset oldBase newBase⟩
  let db := db.zero 64 (newCapacity * 16)
  match db.reinsert backup with
  | (.ok, db) =>
      let db := { db with hashEntryCount := backup.length }
      (.ok, db.efDbMarkMetaDirty.efDbRefreshSlotCrcs.efIndexWriteEnd)
  | (err, db) => (err, db.efIndexWriteEnd)

/-- Source: `ef_index.c`, `ef_index_rehash_to` -/
def efIndexRehashTo (db : Db) (newCapacity : ℕ) (allowShrink : Bool) : Err × Db :=
  if db.readonly then (.readonly, db)
  else if newCapacity < 1 ∨ newCapacity &&& (newCapacity - 1) ≠ 0 then (.grow, db)
  else if 0xFFFF < newCapacity then (.grow, db)
  else
    match db.efIndexWriteBegin with
    | (.ok, db) =>
        let oldCapacity := db.hashCapacity
        if oldCapacity = 0 then (.nullArg, db.efIndexWriteEnd)
        else if allowShrink ∧ oldCapacity ≤ newCapacity then (.grow, db.efIndexWriteEnd)
        else if allowShrink = false ∧ newCapacity < oldCapacity then (.ok, db.efIndexWriteEnd)
        else if newCapacity = oldCapacity then (.ok, db.efIndexWriteEnd)
        else if allowShrink ∧ db.backend = .file then (.grow, db.efIndexWriteEnd)
        else if allowShrink ∧ db.hashEntryCount ≠ 0 ∧
            newCapacity * 3 ≤ db.hashEntryCount * 4 then (.grow, db.efIndexWriteEnd)
        else
          let backup := db.liveEntries oldCapacity
          if backup ≠ [] ∧ db.env.mallocFails then (.oom, db.efIndexWriteEnd)
          else
            let newSize := efIndexFileSize db.sb.maxSlots newCapacity
            if db.backend = .memory ∧ db.mapCapacity < newSize then
              (.fileSize, db.efIndexWriteEnd)
            else
              match db.backend with
              | .file =>
                  match db.efPortGrowFile newSize with
                  | (.ok, db) => db.rehashMove newCapacity backup
                  -- the lock byte that is released lies in the superblock, which may be gone
                  | (err, grown) => (if grown.isMapped then err else .fault, db.efIndexWriteEnd)
              | .memory => rehashMove { db with fileSize := newSize } newCapacity backup
    | (err, db) => (err, db)

/-- Source: `ef_index.c`, `ef_index_rehash` -/
def efIndexRehash (db : Db) (newCapacity : ℕ) : Err × Db := db.efIndexRehashTo newCapacity false

/-- Source: `ef_index.c`, `ef_index_shrink` -/
def efIndexShrink (db : Db) (newCapacity : ℕ) : Err × Db :=
  if newCapacity = 0 then (.grow, db) else db.efIndexRehashTo newCapacity true

/-- Source: `ef_index.c`, `ef_index_should_shrink_snap` -/
def efIndexShouldShrinkSnap (db : Db) (entries capacity : ℕ) : Bool :=
  if db.hashCapacity = 0 ∨ capacity = 0 then false
  else if entries = 0 then true
  else entries * 8 < capacity

/-- The shrink attempt that follows a removal, with the entry count and the capacity taken under
the lock. Its result is ignored.
Source: `ef_index.c`, end of `ef_index_remove` and `ef_index_remove_by_slot` -/
def shrinkAfterRemove (db : Db) (entries capacity : ℕ) : Db :=
  if db.efIndexShouldShrinkSnap entries capacity then
    (db.efIndexShrink (efIndexPickShrinkCapacity entries capacity)).2
  else db

/-- The first bucket below `n` that maps to a slot offset. -/
def findSlotLoop (db : Db) (slotOffset n : ℕ) : Option ℕ :=
  (List.range n).find? fun i => (db.entry i).slotOffset = slotOffset

/-- Source: `ef_index.c`, `ef_index_remove_by_slot` -/
def efIndexRemoveBySlot (db : Db) (slotId : ℕ) : Err × Db :=
  if db.readonly then (.readonly, db)
  else
    match db.efIndexWriteBegin with
    | (.ok, db) =>
        if db.hashCapacity = 0 then (.ok, db.efIndexWriteEnd)
        else
          let slotOffset := db.efSlotToOffset slotId
          if slotOffset = 0 then (.ok, db.efIndexWriteEnd)
          else
            let (err, db) : Err × Db :=
              match db.findSlotLoop slotOffset db.hashCapacity with
              | none => (.ok, db)
              | some i =>
                  match db.efIndexRemoveByHash (db.entry i).keyHash with
                  | (.notFound, db) => (.ok, db)
                  | (err, db) => (err, db)
            if err = .ok then
              let entries := db.hashEntryCount
              let capacity := db.hashCapacity
              (.ok, db.efIndexWriteEnd.efDbMarkMetaDirty.shrinkAfterRemove entries capacity)
            else (err, db.efIndexWriteEnd)
    | (err, db) => (err, db)

/-- Source: `ef_index.c`, `ef_index_grow_for_insert` -/
def efIndexGrowForInsert (db : Db) : Err × Db :=
  match db.efIndexWriteBegin with
  | (.ok, db) =>
      if db.hashCapacity = 0 then (.nullArg, db.efIndexWriteEnd)
      else
        let cap := db.hashCapacity
        let target :=
          efIndexPickCapacity ((db.hashEntryCount + 1) % u32) ((cap * 2) % u32)
        let db := db.efIndexWriteEnd
        if target = 0 ∨ target ≤ cap then (.indexFull, db) else db.efIndexRehash target
  | (err, db) => (err, db)

/-- The insertion proper, under the write lock, and the undo record of a new key. -/
def indexPutLocked (db : Db) (keyHash slotOffset : ℕ) : Err × Db :=
  match db.efIndexPutEntry keyHash slotOffset with
  | (.ok, added, db) =>
      let db := if added then { db with hashEntryCount := (db.hashEntryCount + 1) % u32 } else db
      let db := db.efIndexWriteEnd.efDbMarkMetaDirty
      if db.txnActive ∧ added then (.ok, (db.efTxnRecordIndexPut keyHash slotOffset).2)
      else (.ok, db)
  | (err, _, db) => (err, db.efIndexWriteEnd)

/-- The body of `ef_index_put`, for the hash of the key.
Source: `ef_index.c`, `ef_index_put` -/
def indexPutAt (db : Db) (keyHash slotId : ℕ) : Err × Db :=
  let absent (db : Db) : Bool := (db.efIndexFindEntryUnlocked keyHash).toOption.isNone
  if db.readonly then (.readonly, db)
  else if db.txnActive ∧ db.hashCapacity ≠ 0 ∧
      efIndexNeedsGrow db.hashEntryCount db.hashCapacity ∧ absent db then
    (.indexBusy, db.setError .indexBusy)
  else
    match db.efIndexWriteBegin with
    | (.ok, db) =>
        if db.efSlotToOffset slotId = 0 then (.slotId, db.efIndexWriteEnd)
        else if db.hashCapacity ≠ 0 ∧
            efIndexNeedsGrow db.hashEntryCount db.hashCapacity ∧ absent db then
          -- the lock is dropped around the rehash, which takes it again
          match db.efIndexWriteEnd.efIndexGrowForInsert with
          | (.ok, db) =>
              match db.efIndexWriteBegin with
              | (.ok, db) =>
                  if db.efSlotToOffset slotId = 0 then (.slotId, db.efIndexWriteEnd)
                  else db.indexPutLocked keyHash (db.efSlotToOffset slotId)
              | (err, db) => (err, db)
          | (err, db) => (err, db)
        else db.indexPutLocked keyHash (db.efSlotToOffset slotId)
    | (err, db) => (err, db)

/-- Source: `ef_index.c`, `ef_index_put` -/
def efIndexPut (db : Db) (key : List UInt8) (slotId : ℕ) : Err × Db :=
  db.indexPutAt (efKeyHash (cString key)) slotId

/-- The body of `ef_index_get`, for the hash of the key.
Source: `ef_index.c`, `ef_index_get` -/
def indexGetAt (db : Db) (keyHash : ℕ) : Except Err ℕ :=
  match db.efIndexFindEntry keyHash with
  | .error err => .error err
  | .ok found => db.efOffsetToSlotId found.slotOffset

/-- Source: `ef_index.c`, `ef_index_get` -/
def efIndexGet (db : Db) (key : List UInt8) : Except Err ℕ :=
  db.indexGetAt (efKeyHash (cString key))

/-- The body of `ef_index_remove`, for the hash of the key.
Source: `ef_index.c`, `ef_index_remove` -/
def indexRemoveAt (db : Db) (keyHash : ℕ) : Err × Db :=
  if db.readonly then (.readonly, db)
  else
    match db.efIndexWriteBegin with
    | (.ok, db) =>
        if db.hashCapacity = 0 then (.nullArg, db.efIndexWriteEnd)
        else
          let snapshot := db.efIndexFindEntryUnlocked keyHash
          if db.txnActive ∧ snapshot.toOption.isNone then (.notFound, db.efIndexWriteEnd)
          else
            match db.efIndexRemoveByHash keyHash with
            | (.ok, db) =>
                let entries := db.hashEntryCount
                let capacity := db.hashCapacity
                let db := db.efIndexWriteEnd.efDbMarkMetaDirty
                let db :=
                  match db.txnActive, snapshot with
                  | true, .ok found => (db.efTxnRecordIndexRemove keyHash found.slotOffset).2
                  | _, _ => db
                (.ok, db.shrinkAfterRemove entries capacity)
            | (err, db) => (err, db.efIndexWriteEnd)
    | (err, db) => (err, db)

/-- Source: `ef_index.c`, `ef_index_remove` -/
def efIndexRemove (db : Db) (key : List UInt8) : Err × Db :=
  db.indexRemoveAt (efKeyHash (cString key))

/-- Source: `ef_index.c`, `ef_index_clear` -/
def efIndexClear (db : Db) : Err × Db :=
  if db.readonly then (.readonly, db)
  else
    match db.efIndexWriteBegin with
    | (.ok, db) =>
        if db.hashCapacity = 0 then (.nullArg, db.efIndexWriteEnd)
        else
          let db := db.zero 64 (db.hashCapacity * 16)
          let db := { db with hashEntryCount := 0 }.efDbMarkMetaDirty
          if 16 < db.hashCapacity then
            let capacity := db.hashCapacity
            (.ok, (db.efIndexWriteEnd.efIndexShrink (efIndexPickShrinkCapacity 0 capacity)).2)
          else (.ok, db.efIndexWriteEnd)
    | (err, db) => (err, db)

end Db

end Endfields.Model
