import Endfields.Model.Index

/-!
# Layout binding, growth, allocation and release of slots

`ef_grow.c` and the allocation part of `endfields.c` and `ef_blob.c`. A slot pointer that a C
function keeps in a local variable is an address here, computed once and used again later, also
after a call that moved the slot region.
-/

namespace Endfields.Model

open Endfields.Lib

namespace Db

/-! ## Layout and growth -/

/-- Source: `endfields.c`, `ef_db_bind_slots_layout` -/
def efDbBindSlotsLayout (db : Db) : Db :=
  let cap := efHashCapacityFromSb db.mem
  let base := 64 + cap * 16
  { db with
    hashCapacity := cap
    slotsBase := base
    slotsBase_eq := rfl
    undoLogBase := (base + db.sb.maxSlots * 64) % u64
    undoLogSlots := undoLogDefaultSlots }

/-- One round of the loop of `ef_grow_append_slots`. -/
def appendSlot (db : Db) (i : ℕ) : Db :=
  let p := db.slotPtr i
  let db := db.zero p 64
  let db := db.setStatus p statusFree
  let db := db.setNext p db.sb.freeListHead
  let db := db.setFreeListHead (db.efSlotToOffset i)
  db.efSbFreeCountInc

/-- The loop of `ef_grow_append_slots`, over `n` slots from `i` on. -/
def appendSlotsLoop (db : Db) (i : ℕ) : ℕ → Db
  | 0 => db
  | n + 1 => (db.appendSlot i).appendSlotsLoop (i + 1) n

/-- Source: `ef_grow.c`, `ef_grow_append_slots` -/
def efGrowAppendSlots (db : Db) (oldMax newMax : ℕ) : Err × Db :=
  (.ok, ((db.setMaxSlots newMax).appendSlotsLoop oldMax (newMax - oldMax)).efDbMarkMetaDirty)

/-- Where a size that has wrapped lets the call come so far, the clearing of the new region or the
loop over the new slots reaches out of every mapping; the handle of a call that does not return is
the one it was made on.
Source: `ef_grow.c`, `ef_grow` -/
def efGrow (db : Db) (newMaxSlots : ℕ) : Err × Db :=
  match db.efDbRequireWrite with
  | (.ok, db) =>
      if db.txnActive then (.grow, db.setError .grow)
      else
        let oldMax := db.sb.maxSlots
        if newMaxSlots ≤ oldMax then (.grow, db.setError .grow)
        else
          let newSize := efExpectedFileSize newMaxSlots db.hashCapacity db.undoLogSlots
          if db.backend = .memory ∧ db.mapCapacity < newSize then
            (.fileSize, db.setError .fileSize)
          else
            let grown : Err × Db :=
              match db.backend with
              | .file =>
                  match db.efPortGrowFile newSize with
                  | (.ok, db) => (.ok, db.efDbBindSlotsLayout)
                  | (err, db) => (err, db)
              | .memory => (.ok, { db with fileSize := newSize })
            match grown with
            | (.ok, roomy) =>
                -- the new slots reach further than any mapping does
                if objectMax ≤ 64 * newMaxSlots then (.fault, db)
                else
                  let oldSize := efExpectedFileSize oldMax roomy.hashCapacity roomy.undoLogSlots
                  let db := roomy.zero oldSize ((newSize + (u64 - oldSize)) % u64)
                  let (err, db) := db.efGrowAppendSlots oldMax newMaxSlots
                  (err, db.setError err)
            | (err, db) => (err, db.setError err)
  | (err, db) => (err, db)

/-! ## Allocation -/

/-- The undo records of an allocation: the slot, then the free count. -/
def recordAlloc (db : Db) (slotId : ℕ) : Db :=
  match db.efPeekSlot slotId with
  | (none, db) => db
  | (some p, db) =>
      let db := (db.efTxnRecordSlotAlloc slotId statusFree (db.slotAt p).headerCrc).2
      (db.efTxnRecordFreeCount (-1)).2

/-- Allocate a slot; `clearPayload` is `EF_ALLOC_ZERO_PAYLOAD`.
Source: `endfields.c`, `ef_alloc_slot_ex` -/
def efAllocSlotEx (db : Db) (clearPayload : Bool) : Err × ℕ × Db :=
  match db.efDbRequireWrite with
  | (.ok, db) =>
      let hasSeqlock : Bool := schemaVersion ≤ db.sb.schemaVersion
      match if hasSeqlock then db.efSbIndexWriteLockAcquire else (.ok, db) with
      | (.ok, db) =>
          let (err, slotId, db) := db.efFreeListPopAtomic clearPayload
          let db := if err = .ok ∧ db.txnActive then db.recordAlloc slotId else db
          let db := if hasSeqlock then db.efSbIndexWriteLockRelease else db
          (err, slotId, db)
      | (err, db) => (err, 0, db.setError err)
  | (err, db) => (err, 0, db)

/-- Source: `endfields.c`, `ef_alloc_slot` -/
def efAllocSlot (db : Db) : Err × ℕ × Db := db.efAllocSlotEx true

/-- Source: `endfields.c`, `ef_alloc_ex` -/
def efAllocEx (db : Db) (clearPayload : Bool) : Err × ℕ × Db :=
  match db.efAllocSlotEx clearPayload with
  | (.slotFull, _, db) =>
      match db.efGrow ((db.sb.maxSlots + 1) % u64) with
      | (.ok, db) => db.efAllocSlotEx clearPayload
      | (err, db) => (err, 0, db)
  | r => r

/-- Source: `endfields.c`, `ef_alloc` -/
def efAlloc (db : Db) : Err × ℕ × Db := db.efAllocEx true

/-! ## Release -/

/-- Source: `ef_blob.c`, `ef_slot_has_overflow_chain` -/
def efSlotHasOverflowChain (db : Db) (p : ℕ) : Bool :=
  if (db.slotAt p).nextOffset = 0 then false
  else
    match db.efOffsetToSlotId (db.slotAt p).nextOffset with
    | .error _ => false
    | .ok slotId => (db.slot slotId).status = statusOverflow

/-- Source: `ef_blob.c`, `ef_return_slot_to_pool` -/
def efReturnSlotToPool (db : Db) (slotId p : ℕ) : Err × Db :=
  match db.efIndexRemoveBySlot slotId with
  | (.ok, db) => db.efFreeListPushAtomic slotId p
  | (err, db) => (err, db.setError err)

/-- The loop of `ef_blob_release_chain`. Every round turns an `OVERFLOW` slot into a `FREE` one, so
a chain has no more rounds than the database has slots. -/
def releaseChainLoop : ℕ → ℕ → Db → Err × Db
  | 0, _, db => (.notFound, db)
  | fuel + 1, offset, db =>
      if offset = 0 then (.ok, db)
      else
        match db.efOffsetToSlotId offset with
        | .error err => (err, db)
        | .ok slotId =>
            let p := db.slotPtr slotId
            if (db.slotAt p).status ≠ statusOverflow then (.notFound, db.setError .notFound)
            else
              let next := (db.slotAt p).nextOffset
              match (db.setNext p 0).efReturnSlotToPool slotId p with
              | (.ok, db) => releaseChainLoop fuel next db
              | (err, db) => (err, db)

/-- Source: `ef_blob.c`, `ef_blob_release_chain` -/
def efBlobReleaseChain (db : Db) (headId p : ℕ) : Err × Db :=
  let offset := (db.slotAt p).nextOffset
  let db := db.setNext p 0
  let db := db.efSlotHeaderCrcStore headId p
  -- a relocation in the middle of the chain can bring old links back; there are at most 16 of them
  releaseChainLoop (17 * (db.sb.maxSlots + 1)) offset db

/-- Source: `endfields.c`, `ef_free_slot` -/
def efFreeSlot (db : Db) (slotId : ℕ) : Err × Db :=
  match db.efDbRequireWrite with
  | (.ok, db) =>
      match db.efPeekSlot slotId with
      | (none, db) => (db.lastErr, db)
      | (some p, db) =>
          let priorStatus := (db.slotAt p).status
          let priorNext := (db.slotAt p).nextOffset
          if priorStatus = statusFree then (.slotFree, db.setError .slotFree)
          else if priorStatus = statusQueued then (.slotBusy, db.setError .slotBusy)
          else if priorStatus = statusQueueDummy ∨ priorStatus = statusQueueLink ∨
              priorStatus = statusQueueDeq then (.slotBusy, db.setError .slotBusy)
          else if (priorStatus = statusUsed ∨ priorStatus = statusOverflow) ∧
              db.efSlotHeaderCrcValid slotId (db.slotAt p) = false then
            (.badChecksum, db.setError .badChecksum)
          else
            match if priorStatus = statusUsed then db.efBlobReleaseChain slotId p else (.ok, db) with
            | (.ok, db) =>
                let db :=
                  if db.txnActive then
                    let db := (db.efTxnRecordSlotFree slotId priorNext priorStatus).2
                    (db.efTxnRecordFreeCount 1).2
                  else db
                db.efReturnSlotToPool slotId p
            | (err, db) => (err, db.setError err)
  | (err, db) => (err, db)

end Db

end Endfields.Model
