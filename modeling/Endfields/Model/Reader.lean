import Endfields.Model.Index

/-!
# A read of the index, share by share

`ef_index_get` and `ef_index_get_slot` of `ef_index.c`, cut where another thread can come between:
the load of the sequence number, the probe of the table, the second load, the translation of the
offset, and the copy of the payload. What a phase keeps is what the C function has in its local
variables.
-/

namespace Endfields.Model

/-- `ef_index_get`, or `ef_index_get_slot` with the size of the caller's buffer, if there is one. -/
inductive ReadCall
  | get (key : List UInt8)
  | getSlot (key : List UInt8) (bufCap : Option ℕ)

/-- The key hash that is looked up. -/
def ReadCall.keyHash : ReadCall → ℕ
  | get key => efKeyHash (cString key)
  | getSlot key _ => efKeyHash (cString key)

/-- Where a read stands. -/
inductive ReadPhase
  | start
  | seqLoad (attempt : ℕ)
  | probe (attempt seq1 : ℕ)
  | recheck (attempt seq1 : ℕ) (found : Except Err HashEntry)
  | unlocked
  | translate (found : HashEntry)
  | copy (slotId : ℕ)
  | done (result : Except Err (ℕ × Option (List UInt8)))
  deriving DecidableEq

/-- Source: `ef_sb_layout.h`, `EF_SB_INDEX_SEQ_READ_MAX` -/
def indexSeqReadMax : ℕ := 4096

namespace Db

/-- The payload of a slot. -/
def slotPayload (db : Db) (slotId : ℕ) : List UInt8 :=
  Lib.readBytes db.mem (db.efSlotPayloadPtr (db.slotPtr slotId)) db.efPayloadCapacity

/-- The next attempt of the loop of `ef_index_find_entry`. -/
def nextAttempt (attempt : ℕ) : ReadPhase :=
  if attempt + 1 < indexSeqReadMax then .seqLoad (attempt + 1) else .done (.error .indexBusy)

/-- The end of `ef_index_find_entry`. -/
def entryFound : Except Err HashEntry → ReadPhase
  | .error err => .done (.error err)
  | .ok found => .translate found

/-- What follows the second load of the sequence number. A result that is neither a hit nor a miss
is tried again.
Source: `ef_index.c`, `ef_index_find_entry`, with `ef_sb_index_seq_read_stable` -/
def seqRecheck (db : Db) (attempt seq1 : ℕ) (found : Except Err HashEntry) : ReadPhase :=
  let stable : Bool := seq1 = db.indexSeq ∧ db.indexSeq % 2 = 0
  match found with
  | .error .notFound => if stable then entryFound found else nextAttempt attempt
  | .error _ => nextAttempt attempt
  | .ok _ => if stable then entryFound found else nextAttempt attempt

/-- The end of `ef_index_get`, and of `ef_index_get_slot`. -/
def slotFound : ReadCall → ℕ → ReadPhase
  | .get _, slotId => .done (.ok (slotId, none))
  | .getSlot _ _, slotId => .copy slotId

/-- The slot is looked up and its payload is copied.
Source: `ef_index.c`, end of `ef_index_get_slot` -/
def copyPayload (db : Db) (slotId : ℕ) : ReadCall → ReadPhase
  | .get _ => .done (.ok (slotId, none))
  | .getSlot _ bufCap =>
      match db.efPeekSlot slotId, bufCap with
      | (none, _), _ => .done (.error .slotId)
      | (some _, _), none => .done (.ok (slotId, none))
      | (some _, _), some cap =>
          if cap < db.efPayloadCapacity then .done (.error .payloadLen)
          else .done (.ok (slotId, some (db.slotPayload slotId)))

/-- One access of the read to the shared state.
Source: `ef_index.c`, `ef_index_find_entry`, `ef_index_get` and `ef_index_get_slot` -/
def readStep (call : ReadCall) (db : Db) : ReadPhase → ReadPhase
  | .start =>
      if db.hashCapacity = 0 then .done (.error .nullArg)
      else if db.sb.schemaVersion < schemaVersion then .unlocked
      else .seqLoad 0
  | .seqLoad attempt =>
      if db.indexSeq % 2 = 1 then nextAttempt attempt else .probe attempt db.indexSeq
  | .probe attempt seq1 => .recheck attempt seq1 (db.efIndexFindEntryUnlocked call.keyHash)
  | .recheck attempt seq1 found => db.seqRecheck attempt seq1 found
  | .unlocked => entryFound (db.efIndexFindEntryUnlocked call.keyHash)
  | .translate found =>
      match db.efOffsetToSlotId found.slotOffset with
      | .error err => .done (.error err)
      | .ok slotId => slotFound call slotId
  | .copy slotId => db.copyPayload slotId call
  | .done result => .done result

end Db

end Endfields.Model
