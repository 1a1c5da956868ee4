import Endfields.Model.Slots

/-!
# The undo log: reset, append and the per-kind record helpers

`ef_undo.c` (up to the append) and the `ef_txn_record_*` helpers of `ef_txn.c`. A record is written
into the mapped bytes at `undoLogBase + undoTail`, field by field; the helpers build its 12-byte
snapshot the way the C code does, including the three that prepare 16 bytes of which the append
copies 12.
-/

namespace Endfields.Model

open Endfields.Lib

/-- Source: `ef_undo.h`, `enum ef_undo_kind` -/
inductive UndoKind
  | slotAlloc | slotFree | slotStatus | slotNext | slotPayload | indexPut | indexRemove
  | queuePush | queuePop | freeCount
  deriving DecidableEq, Repr

/-- The byte a kind is stored as. -/
def UndoKind.code : UndoKind → ℕ
  | .slotAlloc => 1
  | .slotFree => 2
  | .slotStatus => 3
  | .slotNext => 4
  | .slotPayload => 5
  | .indexPut => 6
  | .indexRemove => 7
  | .queuePush => 8
  | .queuePop => 9
  | .freeCount => 10

/-- The kind a stored byte stands for; the replay skips every other byte. -/
def UndoKind.ofCode : ℕ → Option UndoKind
  | 1 => some .slotAlloc
  | 2 => some .slotFree
  | 3 => some .slotStatus
  | 4 => some .slotNext
  | 5 => some .slotPayload
  | 6 => some .indexPut
  | 7 => some .indexRemove
  | 8 => some .queuePush
  | 9 => some .queuePop
  | 10 => some .freeCount
  | _ => none

@[simp] lemma UndoKind.ofCode_code (k : UndoKind) : UndoKind.ofCode k.code = some k := by
  cases k <;> rfl

namespace Db

/-- Source: `ef_undo.c`, `ef_undo_header_ptr` -/
def efUndoHeaderPtr (db : Db) : Option ℕ := if db.undoLogBase = 0 then none else some db.undoLogBase

/-- The undo header of the handle's segment. -/
def undoHeader (db : Db) : UndoHeader := UndoHeader.read db.mem db.undoLogBase

/-- Source: `ef_undo.c`, `ef_undo_reset` -/
def efUndoReset (db : Db) : Db :=
  match db.efUndoHeaderPtr with
  | none => db
  | some h =>
      let db := db.zero h (undoLogBytes db.undoLogSlots)
      { db with undoTail := 32, undoRecordCount := 0 }.efDbMarkMetaDirty

/-- The stores that write one record at address `rec`: the record is cleared, then its fields are
set. Without a snapshot its bytes stay zero. -/
def writeRawRecord (db : Db) (rec kind targetOffset aux : ℕ) (before : Option (List UInt8)) : Db :=
  let db := db.zero rec 32
  let db := db.store rec 1 kind
  let db := db.store (rec + 2) 2 32
  let db := db.store (rec + 4) 8 targetOffset
  let db := db.store (rec + 12) 8 aux
  match before with
  | none => db
  | some bytes => db.copyIn (rec + 20) bytes

/-- The stores of a record of one of the kinds that the code appends, with its snapshot. -/
def writeUndoRecord (db : Db) (rec : ℕ) (kind : UndoKind) (targetOffset aux : ℕ)
    (before : List UInt8) : Db :=
  db.writeRawRecord rec kind.code targetOffset aux (some before)

/-- The stores that bring the header at `h` up to date after an append. -/
def writeUndoHeader (db : Db) (h : ℕ) : Db :=
  let db := db.store (h + 8) 8 db.undoTail
  let db := db.store (h + 16) 4 db.undoRecordCount
  let db := if load db.mem h 4 ≠ undoHeaderMagic then db.store h 4 undoHeaderMagic else db
  db.store (h + 4) 4 (efUndoHeaderCrcCompute (UndoHeader.read db.mem h))

/-- Append a record with any kind byte, and a 12-byte snapshot or none. Outside a transaction the
record is dropped.
Source: `ef_undo.c`, `ef_undo_record_append` -/
def efUndoRecordAppendRaw (db : Db) (kind targetOffset aux : ℕ) (before : Option (List UInt8)) :
    Err × Db :=
  if db.txnActive = false then (.ok, db)
  else
    match db.efUndoHeaderPtr with
    | none => (.nullArg, db)
    | some h =>
        if undoLogBytes db.undoLogSlots < db.undoTail + 32 then
          (.txnLogFull, db.setError .txnLogFull)
        else
          let db := db.writeRawRecord (h + db.undoTail) kind targetOffset aux before
          let db := { db with
            undoTail := db.undoTail + 32
            undoRecordCount := (db.undoRecordCount + 1) % u32 }
          (.ok, (db.writeUndoHeader h).efDbMarkMetaDirty)

/-- Append a record of one of the kinds of the code, with its snapshot.
Source: `ef_undo.c`, `ef_undo_record_append` -/
def efUndoRecordAppend (db : Db) (kind : UndoKind) (targetOffset aux : ℕ) (before : List UInt8) :
    Err × Db :=
  db.efUndoRecordAppendRaw kind.code targetOffset aux (some before)

/-! ## The record helpers -/

/-- Source: `ef_txn.c`, `ef_txn_record_slot_status` -/
def efTxnRecordSlotStatus (db : Db) (slotId priorStatus priorCrc : ℕ) : Err × Db :=
  db.efUndoRecordAppend .slotStatus (db.efSlotToOffset slotId) 0
    (leBytes 4 priorStatus ++ leBytes 4 priorCrc ++ List.replicate 4 0)

/-- Source: `ef_txn.c`, `ef_txn_record_slot_next` -/
def efTxnRecordSlotNext (db : Db) (slotId priorNext : ℕ) : Err × Db :=
  db.efUndoRecordAppend .slotNext (db.efSlotToOffset slotId) 0
    (leBytes 8 priorNext ++ List.replicate 4 0)

/-- Source: `ef_txn.c`, `ef_txn_record_slot_payload` -/
def efTxnRecordSlotPayload (db : Db) (slotId : ℕ) (priorPayloadFirst8 : List UInt8) : Err × Db :=
  db.efUndoRecordAppend .slotPayload (db.efSlotToOffset slotId) 0
    (priorPayloadFirst8 ++ List.replicate 4 0)

/-- Source: `ef_txn.c`, `ef_txn_record_slot_alloc` -/
def efTxnRecordSlotAlloc (db : Db) (slotId priorStatus priorCrc : ℕ) : Err × Db :=
  db.efUndoRecordAppend .slotAlloc (db.efSlotToOffset slotId) 0
    (leBytes 4 priorStatus ++ leBytes 4 priorCrc ++ List.replicate 4 0)

/-- Source: `ef_txn.c`, `ef_txn_record_slot_free` -/
def efTxnRecordSlotFree (db : Db) (slotId priorNext priorStatus : ℕ) : Err × Db :=
  db.efUndoRecordAppend .slotFree (db.efSlotToOffset slotId) priorStatus
    (leBytes 8 priorNext ++ List.replicate 4 0)

/-- Source: `ef_txn.c`, `ef_txn_record_index_put` -/
def efTxnRecordIndexPut (db : Db) (keyHash slotOffset : ℕ) : Err × Db :=
  db.efUndoRecordAppend .indexPut slotOffset 0 (leBytes 8 keyHash ++ List.replicate 4 0)

/-- Source: `ef_txn.c`, `ef_txn_record_index_remove` -/
def efTxnRecordIndexRemove (db : Db) (keyHash slotOffset : ℕ) : Err × Db :=
  db.efUndoRecordAppend .indexRemove slotOffset 0 ((leBytes 8 keyHash ++ leBytes 8 slotOffset).take 12)

/-- Source: `ef_txn.c`, `ef_txn_record_queue_push` -/
def efTxnRecordQueuePush (db : Db) (newNodeOffset savedTailNext : ℕ) : Err × Db :=
  db.efUndoRecordAppend .queuePush newNodeOffset 0
    ((leBytes 8 savedTailNext ++ List.replicate 8 0).take 12)

/-- Source: `ef_txn.c`, `ef_txn_record_queue_pop` -/
def efTxnRecordQueuePop (db : Db) (poppedNodeOffset savedDummyNext savedTail savedNodeNext : ℕ) :
    Err × Db :=
  db.efUndoRecordAppend .queuePop poppedNodeOffset savedNodeNext
    ((leBytes 8 savedDummyNext ++ leBytes 8 savedTail).take 12)

/-- A signed 64-bit value as the word it is stored as. -/
def int64Word (delta : ℤ) : ℕ := (delta % (u64 : ℤ)).toNat

/-- A stored word as a signed 64-bit value. -/
def wordInt64 (w : ℕ) : ℤ := if w < 9223372036854775808 then (w : ℤ) else (w : ℤ) - (u64 : ℤ)

/-- Source: `ef_txn.c`, `ef_txn_record_free_count` -/
def efTxnRecordFreeCount (db : Db) (delta : ℤ) : Err × Db :=
  db.efUndoRecordAppend .freeCount 0 (int64Word delta) (List.replicate 12 0)

end Db

end Endfields.Model
