import Endfields.Model.Write

/-!
# The message queue

`ef_queue.c`: a linked queue of slots behind a dummy slot, with the head (the dummy) and the tail in
the superblock. The dummy is made by the first push. The two restore functions are what the undo
log calls.
-/

namespace Endfields.Model

open Endfields.Lib

namespace Db

/-- Source: `ef_queue.c`, `ef_queue_dummy_offset` -/
def efQueueDummyOffset (db : Db) : Err × ℕ × Db :=
  let head := db.sb.queueHead
  let isDummy : Bool :=
    match if head = 0 then none else db.efSlotAtOffset head with
    | none => false
    | some i => (db.slot i).status = statusQueueDummy
  if isDummy then (.ok, head, db)
  else
    match db.efAllocSlot with
    | (.ok, dummyId, db) =>
        match db.efPeekSlot dummyId with
        | (none, db) => (db.lastErr, 0, db)
        | (some p, db) =>
            let dummyOffset := db.efSlotToOffset dummyId
            let db := db.setStatus p statusQueueDummy
            let db := db.setNext p 0
            let db := db.zero (db.efSlotPayloadPtr p) db.efPayloadCapacity
            let db := db.efSlotHeaderCrcStore dummyId p
            if db.sb.queueHead = 0 then
              let db := db.setQueueHead dummyOffset
              let db := db.setQueueTail dummyOffset
              (.ok, dummyOffset, db.efDbMarkMetaDirty)
            else
              let db := db.setStatus p statusUsed
              let db := (db.efReturnSlotToPool dummyId p).2
              (.ok, db.sb.queueHead, db)
    | (err, _, db) => (err, 0, db)

/-- Source: `ef_queue.c`, `ef_queue_lock_acquire` -/
def efQueueLockAcquire (db : Db) : Err × Db :=
  match db.efSbQueueLockAcquire with
  | (.ok, db) => (.ok, db)
  | (err, db) => (err, db.setError err)

/-- Source: `ef_queue.c`, `ef_queue_enqueue_mpmc` -/
def efQueueEnqueueMpmc (db : Db) (slotOffset slotId : ℕ) : Err × Db :=
  match db.efQueueDummyOffset with
  | (.ok, _, db) =>
      match db.efSlotAtOffset slotOffset with
      | none => (.offset, db.setError .offset)
      | some nodeId =>
          let node := db.slotPtr nodeId
          let db := db.setNext node 0
          let db := db.setStatus node statusQueued
          let db := db.efSlotHeaderCrcStore slotId node
          match db.efQueueLockAcquire with
          | (.ok, db) =>
              match db.efSlotAtOffset db.sb.queueTail with
              | none => (.offset, db.efSbQueueLockRelease.setError .offset)
              | some tailId =>
                  let tail := db.slotPtr tailId
                  let savedTailNext := (db.slotAt tail).nextOffset
                  let db := db.setNext tail slotOffset
                  let db := db.efSlotHeaderCrcStore tailId tail
                  let db := db.setQueueTail slotOffset
                  let db := db.efSbQueueLockRelease.efDbMarkMetaDirty
                  let db := if db.txnActive then
                      (db.efTxnRecordQueuePush slotOffset savedTailNext).2
                    else db
                  (.ok, db.setError .ok)
          | (err, db) => (err, db)
  | (err, _, db) => (err, db)

/-- Source: `ef_queue.c`, `ef_queue_dequeue_mpmc`; the result carries the message -/
def efQueueDequeueMpmc (db : Db) (bufCap : ℕ) : Err × List UInt8 × Db :=
  let dummyOffset := db.sb.queueHead
  if dummyOffset = 0 then (.queueEmpty, [], db.setError .queueEmpty)
  else
    match db.efQueueLockAcquire with
    | (.ok, db) =>
        match (db.efSlotAtOffset dummyOffset).filter
            fun i => (db.slot i).status = statusQueueDummy with
        | none => (.notFound, [], db.efSbQueueLockRelease.setError .notFound)
        | some dummyId =>
            let dummy := db.slotPtr dummyId
            let firstOff := (db.slotAt dummy).nextOffset
            if firstOff = 0 then (.queueEmpty, [], db.efSbQueueLockRelease.setError .queueEmpty)
            else
              match (db.efSlotAtOffset firstOff).filter
                  fun i => (db.slot i).status = statusQueued with
              | none => (.notFound, [], db.efSbQueueLockRelease.setError .notFound)
              | some firstId =>
                  let first := db.slotPtr firstId
                  let tailOff := db.sb.queueTail
                  let firstNext := (db.slotAt first).nextOffset
                  let payload := db.efSlotPayloadPtr first
                  let storedLen := (db.mem payload).toNat
                  if bufCap < storedLen + 1 then
                    (.payloadLen, [], db.efSbQueueLockRelease.setError .payloadLen)
                  else
                    let message := readBytes db.mem (payload + 1) storedLen
                    let db := if db.txnActive then
                        (db.efTxnRecordQueuePop firstOff (db.slotAt dummy).nextOffset tailOff
                          firstNext).2
                      else db
                    let db := db.setNext dummy firstNext
                    let db := if tailOff = firstOff then
                        db.setQueueTail (if firstNext ≠ 0 then firstNext else dummyOffset)
                      else db
                    let db := db.efSlotHeaderCrcStore dummyId dummy
                    let (err, db) := db.efReturnSlotToPool firstId first
                    let db := db.efSbQueueLockRelease.efDbMarkMetaDirty
                    (err, message, db.setError err)
    | (err, db) => (err, [], db)

/-- Source: `ef_queue.c`, `ef_queue_push` -/
def efQueuePush (db : Db) (data : List UInt8) : Err × Db :=
  match db.efDbRequireWrite with
  | (.ok, db) =>
      if db.efPayloadCapacity < data.length + 1 then (.payloadLen, db.setError .payloadLen)
      else
        match db.efAllocEx false with
        | (.ok, slotId, db) =>
            match db.efPeekSlot slotId with
            | (none, db) => (.slotId, db.setError .slotId)
            | (some p, db) =>
                let db := db.copyIn (db.efSlotPayloadPtr p) (UInt8.ofNat data.length :: data)
                match db.efQueueEnqueueMpmc (db.efSlotToOffset slotId) slotId with
                | (.ok, db) => (.ok, db)
                | (err, db) => (err, (db.efReturnSlotToPool slotId p).2)
        | (err, _, db) => (err, db)
  | (err, db) => (err, db)

/-- Source: `ef_queue.c`, `ef_queue_pop` -/
def efQueuePop (db : Db) (bufCap : ℕ) : Err × List UInt8 × Db :=
  match db.efDbRequireWrite with
  | (.ok, db) => db.efQueueDequeueMpmc bufCap
  | (err, db) => (err, [], db)

/-- Source: `ef_queue.c`, `ef_queue_empty` -/
def efQueueEmpty (db : Db) : Bool × Db :=
  let dummyOffset := db.sb.queueHead
  if dummyOffset = 0 then (true, db)
  else
    match db.efOffsetToPtr dummyOffset with
    | (none, db) => (db.sb.queueHead = 0, db)
    | (some p, db) =>
        if (db.slotAt p).status ≠ statusQueueDummy then (db.sb.queueHead = 0, db)
        else ((db.slotAt p).nextOffset = 0, db)

/-- Source: `ef_queue.c`, `ef_queue_drained` -/
def efQueueDrained (db : Db) : Bool × Db :=
  let dummyOffset := db.sb.queueHead
  if dummyOffset = 0 then (true, db)
  else
    match db.efQueueLockAcquire with
    | (.ok, db) =>
        match (db.efSlotAtOffset dummyOffset).filter
            fun i => (db.slot i).status = statusQueueDummy with
        | none => (false, db.efSbQueueLockRelease)
        | some dummyId =>
            let drained : Bool := (db.slot dummyId).nextOffset = 0
            (drained, db.efSbQueueLockRelease)
    | (_, db) => (false, db)

/-! ## What the undo log calls -/

/-- Source: `ef_queue.c`, `ef_queue_restore_before_push`. The dummy's checksum is stored under its
offset where the other slots have their id. -/
def efQueueRestoreBeforePush (db : Db) (newNodeOffset savedTailNext : ℕ) : Err × Db :=
  match db.efQueueLockAcquire with
  | (.ok, db) =>
      if db.sb.queueTail ≠ newNodeOffset then (.ok, db.efSbQueueLockRelease)
      else
        match db.efSlotAtOffset newNodeOffset with
        | none => (.offset, db.efSbQueueLockRelease)
        | some nodeId =>
            let db :=
              match db.efSlotAtOffset savedTailNext with
              | none =>
                  match db.efSlotAtOffset db.sb.queueHead with
                  | none => db
                  | some i =>
                      (db.setNext (db.slotPtr i) 0).efSlotHeaderCrcStore db.sb.queueHead
                        (db.slotPtr i)
              | some i => (db.setNext (db.slotPtr i) 0).efSlotHeaderCrcStore i (db.slotPtr i)
            let db := db.setQueueTail savedTailNext
            let db := db.setStatus (db.slotPtr nodeId) statusUsed
            let db := db.efSlotHeaderCrcStore nodeId (db.slotPtr nodeId)
            (.ok, db.efSbQueueLockRelease.efDbMarkMetaDirty)
  | (err, db) => (err, db)

/-- Source: `ef_queue.c`, `ef_queue_restore_before_pop` -/
def efQueueRestoreBeforePop (db : Db) (poppedNodeOffset savedTail savedNodeNext : ℕ) : Err × Db :=
  match db.efQueueLockAcquire with
  | (.ok, db) =>
      match db.efSlotAtOffset db.sb.queueHead with
      | none => (.offset, db.efSbQueueLockRelease)
      | some dummyId =>
          match db.efSlotAtOffset poppedNodeOffset with
          | none => (.offset, db.efSbQueueLockRelease)
          | some nodeId =>
              let dummy := db.slotPtr dummyId
              let node := db.slotPtr nodeId
              let db := (db.setNext dummy poppedNodeOffset).efSlotHeaderCrcStore dummyId dummy
              let db := db.setNext node savedNodeNext
              let db := db.setStatus node statusQueued
              let db := db.efSlotHeaderCrcStore nodeId node
              let db := db.setQueueTail savedTail
              (.ok, db.efSbQueueLockRelease.efDbMarkMetaDirty)
  | (err, db) => (err, db)

end Db

end Endfields.Model
