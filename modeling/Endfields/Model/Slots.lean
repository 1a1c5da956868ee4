import Endfields.Model.SbLayout

/-!
# Slots, offsets and the free list

The slot primitives of `endfields.c`: offset conversion, header checksums, slot access by id, and
the persistent free list. A function that returns a slot pointer or `NULL` returns
`Option ℕ × Db`, where the number is the pointer; one that returns an error code returns
`Err × Db`, with its output value between the two where it has one.

The compare-and-swap loops of the free list are read sequentially: nothing changes the list head
between the load and the swap, so the first round succeeds.
-/

namespace Endfields.Model

open Endfields.Lib

namespace Db

/-! ## Payload and offsets -/

/-- The layout without slot checksums, whose payload starts right after the status word. -/
def legacyPayload (db : Db) : Bool :=
  db.sb.schemaVersion = 0 ∨ db.sb.schemaVersion = schemaLegacy

/-- Source: `endfields.c`, `ef_payload_capacity` -/
def efPayloadCapacity (db : Db) : ℕ := if db.legacyPayload then 52 else 48

/-- Source: `endfields.c`, `ef_slot_payload_ptr` -/
def efSlotPayloadPtr (db : Db) (p : ℕ) : ℕ := if db.legacyPayload then p + 4 else p + 8

/-- Source: `endfields.c`, `ef_slot_to_offset` -/
def efSlotToOffset (db : Db) (slotId : ℕ) : ℕ :=
  if db.sb.maxSlots ≤ slotId then 0 else (db.slotsBase + 64 * slotId) % u64

/-- Source: `endfields.c`, `ef_offset_to_slot_id` -/
def efOffsetToSlotId (db : Db) (offset : ℕ) : Except Err ℕ :=
  if offset < db.slotsBase then .error .offset
  else if (offset - db.slotsBase) % 64 ≠ 0 then .error .offset
  else if db.sb.maxSlots ≤ (offset - db.slotsBase) / 64 then .error .slotId
  else .ok ((offset - db.slotsBase) / 64)

/-- The id of the slot at a file offset; the C function returns the pointer `db->slots + id`.
Source: `endfields.c`, `ef_slot_at_offset` -/
def efSlotAtOffset (db : Db) (offset : ℕ) : Option ℕ :=
  if offset < db.slotsBase ∨ db.fileSize ≤ offset then none
  else if (offset - db.slotsBase) % 64 ≠ 0 then none
  else if db.sb.maxSlots ≤ (offset - db.slotsBase) / 64 then none
  else some ((offset - db.slotsBase) / 64)

/-- Source: `endfields.c`, `ef_offset_to_ptr` -/
def efOffsetToPtr (db : Db) (offset : ℕ) : Option ℕ × Db :=
  if offset = 0 ∨ db.fileSize ≤ offset then (none, db.setError .offset)
  else (some offset, db.setError .ok)

/-! ## Slot access and header checksums -/

/-- Source: `endfields.c`, `ef_slot_header_crc_store` -/
def efSlotHeaderCrcStore (db : Db) (slotId p : ℕ) : Db :=
  if db.sb.slotCrc then db.setHeaderCrc p (efSlotHeaderCrcCompute slotId (db.slotAt p)) else db

/-- Source: `endfields.c`, `ef_slot_header_crc_valid` -/
def efSlotHeaderCrcValid (db : Db) (slotId : ℕ) (slot : Slot) : Bool :=
  if db.sb.slotCrc = false then true
  else if efSlotStatusHasCrc slot.status = false then true
  else if slot.headerCrc = 0 then false
  else if slot.headerCrc = efSlotHeaderCrcCompute slotId slot then true
  else efSlotStatusUsesLinkCrc slot.status ∧
    slot.headerCrc = efSlotHeaderCrcComputeFull slotId slot

/-- Source: `endfields.c`, `ef_peek_slot` -/
def efPeekSlot (db : Db) (slotId : ℕ) : Option ℕ × Db :=
  if db.sb.maxSlots ≤ slotId then (none, db.setError .slotId)
  else (some (db.slotPtr slotId), db.setError .ok)

/-- Source: `endfields.c`, `ef_get_slot`, with `ef_slot_verify_used` -/
def efGetSlot (db : Db) (slotId : ℕ) : Option ℕ × Db :=
  match db.efPeekSlot slotId with
  | (none, db) => (none, db)
  | (some p, db) =>
      if efSlotStatusHasCrc (db.slotAt p).status ∧
          db.efSlotHeaderCrcValid slotId (db.slotAt p) = false then
        (none, db.setError .badChecksum)
      else (some p, db)

/-- Source: `endfields.c`, `ef_db_refresh_slot_crcs` (one slot) -/
def refreshSlotCrc (db : Db) (i : ℕ) : Db :=
  if efSlotStatusHasCrc (db.slot i).status then db.efSlotHeaderCrcStore i (db.slotPtr i) else db

/-- The loop of `ef_db_refresh_slot_crcs` over the first `n` slots. -/
def refreshSlotCrcsLoop (db : Db) : ℕ → Db
  | 0 => db
  | n + 1 => (refreshSlotCrcsLoop db n).refreshSlotCrc n

/-- Source: `endfields.c`, `ef_db_refresh_slot_crcs` -/
def efDbRefreshSlotCrcs (db : Db) : Db :=
  if db.sb.slotCrc then db.refreshSlotCrcsLoop db.sb.maxSlots else db

/-- Source: `endfields.c`, `ef_db_refresh_checksums` -/
def efDbRefreshChecksums (db : Db) : Db := db.efDbRefreshSlotCrcs.efSbChecksumStore

/-! ## The free list -/

/-- Source: `endfields.c`, `ef_free_list_pop_atomic` -/
def efFreeListPopAtomic (db : Db) (clearPayload : Bool) : Err × ℕ × Db :=
  let head := db.sb.freeListHead
  if head = 0 ∨ db.sb.freeCount = 0 then (.slotFull, 0, db.setError .slotFull)
  else
    match db.efOffsetToPtr head with
    | (none, db) => (db.lastErr, 0, db)
    | (some p, db) =>
        match db.efOffsetToSlotId head with
        | .error err => (err, 0, db.setError err)
        | .ok slotId =>
            let next := (db.slotAt p).nextOffset
            let db := db.setFreeListHead next
            let db := db.setNext p 0
            let db := db.setStatus p statusUsed
            let db := if clearPayload then db.zero (db.efSlotPayloadPtr p) db.efPayloadCapacity
              else db
            let db := db.efSbFreeCountDec
            let db := db.efSlotHeaderCrcStore slotId p
            (.ok, slotId, db.efDbMarkMetaDirty.setError .ok)

/-- Source: `endfields.c`, `ef_free_list_push_atomic` -/
def efFreeListPushAtomic (db : Db) (slotId p : ℕ) : Err × Db :=
  let slotOffset := db.efSlotToOffset slotId
  let db := db.setHeaderCrc p 0
  let db := db.zero (db.efSlotPayloadPtr p) db.efPayloadCapacity
  let head := db.sb.freeListHead
  let db := db.setNext p head
  let db := db.setStatus p statusFree
  let db := db.setFreeListHead slotOffset
  let db := db.efSbFreeCountInc
  (.ok, db.efDbMarkMetaDirty.setError .ok)

/-- The cursor loop of `ef_unlink_free_slot`, with its guard as fuel. -/
def unlinkFreeSlotLoop (db : Db) (p slotOffset : ℕ) : ℕ → Option ℕ → Err × Db
  | 0, _ => (.notFound, db)
  | _ + 1, none => (.notFound, db)
  | guard + 1, some c =>
      if (db.slot c).nextOffset = slotOffset then
        (.ok, (db.setNext (db.slotPtr c) (db.slotAt p).nextOffset).setNext p 0)
      else unlinkFreeSlotLoop db p slotOffset guard (db.efSlotAtOffset (db.slot c).nextOffset)

/-- Source: `endfields.c`, `ef_unlink_free_slot` -/
def efUnlinkFreeSlot (db : Db) (slotId : ℕ) : Err × Db :=
  match db.efPeekSlot slotId with
  | (none, db) => (.slotId, db)
  | (some p, db) =>
      if (db.slotAt p).status ≠ statusFree then (.ok, db)
      else
        let slotOffset := db.efSlotToOffset slotId
        if db.sb.freeListHead = slotOffset then
          (.ok, (db.setFreeListHead (db.slotAt p).nextOffset).setNext p 0)
        else
          db.unlinkFreeSlotLoop p slotOffset (db.sb.maxSlots + 1)
            (db.efSlotAtOffset db.sb.freeListHead)

/-- Source: `endfields.c`, `ef_claim_slot` -/
def efClaimSlot (db : Db) (slotId : ℕ) : Err × Db :=
  match db.efPeekSlot slotId with
  | (none, db) => (.slotId, db.setError .slotId)
  | (some p, db) =>
      if (db.slotAt p).status = statusUsed then (.ok, db.setError .ok)
      else
        match db.efUnlinkFreeSlot slotId with
        | (.ok, db) =>
            let db := db.setStatus p statusUsed
            let db := if 0 < db.sb.freeCount then db.efSbFreeCountDec else db
            let db := db.efSlotHeaderCrcStore slotId p
            (.ok, db.efDbMarkMetaDirty.setError .ok)
        | (err, db) => (err, db.setError err)

end Db

end Endfields.Model
