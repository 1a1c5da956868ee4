import Endfields.Model.Queue

/-!
# Replay of the undo log and transactions

The reverse replay of `ef_undo.c`, record by record from the tail of the log, and `ef_txn.c`: begin,
commit, abort, and the recovery that an open runs when it finds a transaction left active.
-/

namespace Endfields.Model

open Endfields.Lib

namespace Db

/-! ## The inverse actions -/

/-- Source: `ef_undo.c`, `ef_undo_restore_slot_status` -/
def efUndoRestoreSlotStatus (db : Db) (slotId priorStatus priorCrc : ℕ) : Err × Db :=
  match db.efPeekSlot slotId with
  | (none, db) => (.slotId, db)
  | (some p, db) =>
      let db := db.setStatus p priorStatus
      (.ok, if efSlotStatusHasCrc priorStatus then db.setHeaderCrc p priorCrc
        else db.setHeaderCrc p 0)

/-- Source: `ef_undo.c`, `ef_undo_restore_slot_next` -/
def efUndoRestoreSlotNext (db : Db) (slotId priorNext : ℕ) : Err × Db :=
  match db.efPeekSlot slotId with
  | (none, db) => (.slotId, db)
  | (some p, db) => (.ok, (db.setNext p priorNext).efSlotHeaderCrcStore slotId p)

/-- The `SLOT_PAYLOAD` case of the replay: the first eight payload bytes. -/
def undoRestoreSlotPayload (db : Db) (slotId : ℕ) (payloadPrefix : List UInt8) : Err × Db :=
  match db.efPeekSlot slotId with
  | (none, db) => (.slotId, db)
  | (some p, db) =>
      (.ok, (db.copyIn (db.efSlotPayloadPtr p) payloadPrefix).efSlotHeaderCrcStore slotId p)

/-- Source: `ef_undo.c`, `ef_undo_restore_slot_alloc` -/
def efUndoRestoreSlotAlloc (db : Db) (slotId : ℕ) : Err × Db :=
  match db.efPeekSlot slotId with
  | (none, db) => (.slotId, db)
  | (some p, db) =>
      let slotOffset := db.efSlotToOffset slotId
      let db := db.setNext p db.sb.freeListHead
      let db := db.setStatus p statusFree
      let db := db.setHeaderCrc p 0
      let db := db.setFreeListHead slotOffset
      (.ok, db.efDbMarkMetaDirty)

/-- Source: `ef_undo.c`, `ef_undo_restore_slot_free` -/
def efUndoRestoreSlotFree (db : Db) (slotId priorNext priorStatus : ℕ) : Err × Db :=
  match db.efPeekSlot slotId with
  | (none, db) => (.slotId, db)
  | (some p, db) =>
      let db := db.setNext p priorNext
      let db := db.setStatus p priorStatus
      let db := if efSlotStatusHasCrc priorStatus then db.efSlotHeaderCrcStore slotId p
        else db.setHeaderCrc p 0
      (.ok, db.efDbMarkMetaDirty)

/-- The `FREE_COUNT` case of the replay: take the recorded change back, from zero at least. -/
def undoRestoreFreeCount (db : Db) (delta : ℤ) : Err × Db :=
  let cur := db.sb.freeCount
  let cur := if delta < 0 ∧ cur < (-delta).toNat % u32 then 0
    else (((cur : ℤ) - delta) % (u32 : ℤ)).toNat
  (.ok, (db.setFreeCount cur).efDbMarkMetaDirty)

/-! ## The replay -/

/-- Undo the record at address `rec`. The saved tail of a `QUEUE_POP` record is read as eight bytes
of which the record holds four; the rest are the first bytes of the record behind it.
Source: `ef_undo.c`, the body of the loop of `ef_undo_replay_reverse` -/
def replayRecord (db : Db) (rec : ℕ) : Err × Db :=
  let slotOffset := load db.mem (rec + 4) 8
  let aux := load db.mem (rec + 12) 8
  let before := rec + 20
  let slotId :=
    match db.efOffsetToSlotId slotOffset with
    | .ok i => i
    | .error _ => 0
  match UndoKind.ofCode (load db.mem rec 1) with
  | some .slotStatus =>
      db.efUndoRestoreSlotStatus slotId (load db.mem before 4) (load db.mem (before + 4) 4)
  | some .slotNext => db.efUndoRestoreSlotNext slotId (load db.mem before 8)
  | some .slotPayload => db.undoRestoreSlotPayload slotId (readBytes db.mem before 8)
  | some .slotAlloc => db.efUndoRestoreSlotAlloc slotId
  | some .slotFree => db.efUndoRestoreSlotFree slotId (load db.mem before 8) (aux % u32)
  | some .indexPut =>
      match db.efIndexRemoveBySlot slotId with
      | (.notFound, db) => (.ok, db)
      | r => r
  | some .indexRemove =>
      let (err, _, db) := db.efIndexPutEntry (load db.mem before 8) slotOffset
      (err, db)
  | some .queuePush => db.efQueueRestoreBeforePush slotOffset (load db.mem before 8)
  | some .queuePop => db.efQueueRestoreBeforePop slotOffset (load db.mem (before + 8) 8) aux
  | some .freeCount => db.undoRestoreFreeCount (wordInt64 aux)
  | none => (.ok, db)

/-- The loop of `ef_undo_replay_reverse` over the segment at `h`, from position `pos` down; it stops
at the first record that fails. -/
def replayLoop (h : ℕ) : ℕ → ℕ → Db → Err × Db
  | 0, _, db => (.ok, db)
  | fuel + 1, pos, db =>
      if pos ≤ 32 then (.ok, db)
      else
        match db.replayRecord (h + (pos - 32)) with
        | (.ok, db) => replayLoop h fuel (pos - 32) db
        | (err, db) => (err, db)

/-- Source: `ef_undo.c`, `ef_undo_replay_reverse` -/
def efUndoReplayReverse (db : Db) : Err × Db :=
  match db.efUndoHeaderPtr with
  | none => (.nullArg, db)
  | some h =>
      if load db.mem h 4 = 0 then (.ok, db)
      else
        let tail := load db.mem (h + 8) 8
        replayLoop h (tail / 32 + 1) tail db

/-! ## Transactions -/

/-- Source: `ef_txn.c`, `ef_txn_begin` -/
def efTxnBegin (db : Db) : Err × Db :=
  if db.readonly then (.readonly, db.setError .readonly)
  else if db.sb.schemaVersion < schemaVersion then (.badVersion, db.setError .badVersion)
  else if db.txnActive then (.txnBusy, db.setError .txnBusy)
  else
    match db.efSbTxnLockTryAcquire with
    | (.ok, db) =>
        let db := db.efSbTxnStateStore txnStateActive
        let db := { db with
          txnState := txnStateActive
          txnActive := true
          txnWriterPid := db.env.pid }
        (.ok, db.efUndoReset.efDbMarkMetaDirty.setError .ok)
    | (err, db) => (err, db.setError err)

/-- What commit and abort share: leave the transaction, clear the log, release the lock. -/
def txnEnd (db : Db) : Db :=
  let db := { db with
    txnState := txnStateNone
    txnActive := false
    txnWriterPid := txnWriterNone }
  let db := db.efUndoReset
  let db := db.efSbTxnStateStore txnStateNone
  db.efSbTxnLockRelease.efDbMarkMetaDirty

/-- Source: `ef_txn.c`, `ef_txn_commit` -/
def efTxnCommit (db : Db) : Err × Db :=
  if db.txnActive then (.ok, db.txnEnd.setError .ok) else (.ok, db.setError .ok)

/-- Source: `ef_txn.c`, `ef_txn_abort` -/
def efTxnAbort (db : Db) : Err × Db :=
  if db.txnActive then
    let db := { db with txnState := txnStateAborting }
    let db := db.efSbTxnStateStore txnStateAborting
    let (err, db) := db.efUndoReplayReverse
    (err, db.txnEnd.setError err)
  else (.ok, db.setError .ok)

/-- Source: `ef_txn.c`, `ef_txn_recover_from_stale_lock` -/
def efTxnRecoverFromStaleLock (db : Db) : Err × Db :=
  if db.sb.schemaVersion < schemaVersion then (.ok, db)
  else if db.efSbTxnStateLoad ≠ txnStateActive then (.ok, db)
  else
    let db := ({ db with txnState := txnStateAborting } : Db).setError .ok
    let (err, db) := db.efUndoReplayReverse
    let db := db.efUndoReset
    let db := db.efSbTxnStateStore txnStateNone
    let db := db.efSbTxnLockRelease
    (err, ({ db with txnState := txnStateNone } : Db).efDbMarkMetaDirty)

end Db

end Endfields.Model
