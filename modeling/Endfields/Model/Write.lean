import Endfields.Model.Alloc

/-!
# Slot writes and blobs

The write functions of `endfields.c` (status, link, payload, single field) and the blob functions of
`ef_blob.c`, each with the undo record it leaves inside a transaction. `ef_write_blob` keeps
pointers over allocations that may grow the file; these are a `Ptr` here, and what they lead to is
`Db.reach`.
-/

namespace Endfields.Model

open Endfields.Lib

/-- The word `BLOB` in front of a blob.
Source: `endfields.h`, `EF_BLOB_MAGIC` -/
@[simp] def blobMagic : ℕ := 0x424F4C42

/-- A pointer into the mapping that a C function keeps over a growth: the address at which the file
was mapped when it was taken, and the offset in that mapping. -/
structure Ptr where
  base : ℕ
  offset : ℕ
  deriving DecidableEq, Repr

namespace Db

/-! ## Status, link, payload, field -/

/-- Source: `endfields.c`, `ef_set_status` -/
def efSetStatus (db : Db) (slotId status : ℕ) : Err × Db :=
  match db.efDbRequireWrite with
  | (.ok, db) =>
      match db.efPeekSlot slotId with
      | (none, db) => (.slotId, db.setError .slotId)
      | (some p, db) =>
          let priorStatus := (db.slotAt p).status
          let priorCrc := (db.slotAt p).headerCrc
          if status = statusFree then
            if priorStatus = statusFree then (.slotFree, db.setError .slotFree)
            else db.efFreeSlot slotId
          else if status = statusUsed then
            if priorStatus = statusFree then db.efClaimSlot slotId
            else if priorStatus = statusUsed then (.ok, db.setError .ok)
            else
              let db := if db.txnActive then (db.efTxnRecordSlotStatus slotId priorStatus priorCrc).2
                else db
              let db := db.setStatus p statusUsed
              (.ok, (db.efSlotHeaderCrcStore slotId p).setError .ok)
          else
            let db := if db.txnActive then (db.efTxnRecordSlotStatus slotId priorStatus priorCrc).2
              else db
            let db := db.setStatus p status
            let db := if efSlotStatusHasCrc status then db.efSlotHeaderCrcStore slotId p
              else db.setHeaderCrc p 0
            (.ok, db.setError .ok)
  | (err, db) => (err, db)

/-- Source: `endfields.c`, `ef_set_next_offset` -/
def efSetNextOffset (db : Db) (slotId nextOffset : ℕ) : Err × Db :=
  match db.efDbRequireWrite with
  | (.ok, db) =>
      match db.efGetSlot slotId with
      | (none, db) => (db.lastErr, db)
      | (some p, db) =>
          if (db.slotAt p).status ≠ statusUsed then (.slotFree, db.setError .slotFree)
          else if db.efSlotHasOverflowChain p then (.slotBusy, db.setError .slotBusy)
          else
            match if nextOffset = 0 then .ok 0 else db.efOffsetToSlotId nextOffset with
            | .error err => (err, db.setError err)
            | .ok _ =>
                let priorNext := (db.slotAt p).nextOffset
                let db := if db.txnActive ∧ priorNext ≠ nextOffset then
                    (db.efTxnRecordSlotNext slotId priorNext).2
                  else db
                let db := db.setNext p nextOffset
                (.ok, (db.efSlotHeaderCrcStore slotId p).setError .ok)
  | (err, db) => (err, db)

/-- Fill the payload of the slot at `p`: the data, then zeros up to the capacity. -/
def fillPayload (db : Db) (p : ℕ) (data : List UInt8) : Db :=
  let payload := db.efSlotPayloadPtr p
  let cap := db.efPayloadCapacity
  let db := db.copyIn payload data
  db.zero (payload + data.length) (cap - data.length)

/-- Source: `endfields.c`, `ef_write_payload` -/
def efWritePayload (db : Db) (slotId : ℕ) (data : List UInt8) : Err × Db :=
  match db.efDbRequireWrite with
  | (.ok, db) =>
      if 48 < data.length then (.payloadLen, db.setError .payloadLen)
      else if db.efPayloadCapacity < data.length then (.payloadLen, db.setError .payloadLen)
      else
        match db.efPeekSlot slotId with
        | (none, db) => (.slotId, db.setError .slotId)
        | (some p, db) =>
            let priorStatus := (db.slotAt p).status
            let priorCrc := (db.slotAt p).headerCrc
            let priorPayloadPrefix :=
              if priorStatus ≠ statusFree then readBytes db.mem (db.efSlotPayloadPtr p) 8
              else List.replicate 8 0
            let claimed : Err × Db :=
              if priorStatus = statusFree then db.efClaimSlot slotId
              else if efSlotStatusHasCrc priorStatus ∧
                  db.efSlotHeaderCrcValid slotId (db.slotAt p) = false then
                (.badChecksum, db.setError .badChecksum)
              else (.ok, db)
            match claimed with
            | (.ok, db) =>
                let db :=
                  if db.txnActive then
                    if priorStatus ≠ statusFree then
                      (db.efTxnRecordSlotPayload slotId priorPayloadPrefix).2
                    else (db.efTxnRecordSlotStatus slotId priorStatus priorCrc).2
                  else db
                let db := db.fillPayload p data
                let db := db.setStatus p statusUsed
                (.ok, (db.efSlotHeaderCrcStore slotId p).setError .ok)
            | (err, db) => (err, db)
  | (err, db) => (err, db)

/-- Source: `endfields.c`, `ef_write_field`. The undo record of field `0` takes eight bytes from the
address of a one-byte local. -/
def efWriteField (db : Db) (slotId fieldOffset : ℕ) (value : UInt8) : Err × Db :=
  match db.efDbRequireWrite with
  | (.ok, db) =>
      match db.efGetSlot slotId with
      | (none, db) => (db.lastErr, db)
      | (some p, db) =>
          if 64 ≤ fieldOffset then (.offset, db.setError .offset)
          else
            let priorValue := db.mem (p + fieldOffset)
            let db := if db.txnActive ∧ fieldOffset = 0 then
                (db.efTxnRecordSlotPayload slotId ((priorValue :: db.env.stack).take 8)).2
              else db
            let db := db.copyIn (p + fieldOffset) [value]
            (.ok, (db.efSlotHeaderCrcStore slotId p).setError .ok)
  | (err, db) => (err, db)

/-! ## Pointers over a growth

A growth maps the file again, at an address of the system's choice. A pointer that was taken before
it keeps its value. -/

/-- The pointer to the offset `p` of the mapping as it is. -/
def pointer (db : Db) (p : ℕ) : Ptr := ⟨db.mapAddr, p⟩

/-- The offset of the mapping that a pointer to a slot leads to. With the mapping where it was, that
is the offset that it was taken at; else it is what the mapping has at that address now, if it still
has a slot's bytes there. -/
def reach (db : Db) (ptr : Ptr) : Option ℕ :=
  if db.mapAddr = ptr.base then some ptr.offset
  else if db.mapAddr ≤ ptr.base + ptr.offset ∧
      ptr.base + ptr.offset + 64 ≤ db.mapAddr + db.fileSize then
    some (ptr.base + ptr.offset - db.mapAddr)
  else none

/-! ## Blobs -/

/-- Source: `ef_blob.c`, `ef_blob_inline_capacity` -/
def efBlobInlineCapacity (db : Db) : ℕ := db.efPayloadCapacity - 8

/-- Source: `ef_blob.c`, `ef_blob_overflow_chunk_cap` -/
def efBlobOverflowChunkCap (db : Db) : ℕ := db.efPayloadCapacity

/-- Source: `ef_blob.c`, `ef_blob_magic_valid`, on the slot at `p` -/
def efBlobMagicValid (db : Db) (p : ℕ) : Bool := load db.mem (db.efSlotPayloadPtr p) 4 = blobMagic

/-- Source: `ef_blob.c`, `ef_blob_read_len` -/
def efBlobReadLen (db : Db) (p : ℕ) : ℕ :=
  if db.efBlobMagicValid p then load db.mem (db.efSlotPayloadPtr p + 4) 4 else 0

/-- Source: `ef_blob.c`, `ef_alloc_overflow_slot`; the result is the id and the pointer -/
def efAllocOverflowSlot (db : Db) : Err × ℕ × ℕ × Db :=
  match db.efAlloc with
  | (.ok, slotId, db) =>
      match db.efGetSlot slotId with
      | (none, db) => (db.lastErr, slotId, 0, db)
      | (some p, db) =>
          (.ok, slotId, p, (db.setStatus p statusOverflow).efSlotHeaderCrcStore slotId p)
  | (err, _, db) => (err, 0, 0, db)

/-- The loop of `ef_blob_unlink_chain_in_txn`. Every round clears a link, so a chain has no more
rounds than the database has slots, and one. -/
def unlinkChainLoop : ℕ → ℕ → Db → Err × Db
  | 0, _, db => (.offset, db)
  | fuel + 1, offset, db =>
      if offset = 0 then (.ok, db)
      else
        match db.efOffsetToSlotId offset with
        | .error _ => (.offset, db)
        | .ok slotId =>
            let p := db.slotPtr slotId
            if (db.slotAt p).status ≠ statusOverflow then (.notFound, db)
            else
              let next := (db.slotAt p).nextOffset
              unlinkChainLoop fuel next ((db.setNext p 0).efSlotHeaderCrcStore slotId p)

/-- Source: `ef_blob.c`, `ef_blob_unlink_chain_in_txn` -/
def efBlobUnlinkChainInTxn (db : Db) (headId p : ℕ) : Err × Db :=
  let offset := (db.slotAt p).nextOffset
  let db := db.setNext p 0
  let db := db.efSlotHeaderCrcStore headId p
  unlinkChainLoop (db.sb.maxSlots + 2) offset db

/-- The clean-up of `ef_write_blob` when no overflow slot is to be had. -/
def blobAbandon (db : Db) (slotId head : ℕ) : Db :=
  let db := (db.efBlobReleaseChain slotId head).2
  let payload := db.efSlotPayloadPtr head
  let db := (db.store payload 4 0).store (payload + 4) 4 0
  let db := db.zero (payload + 8) db.efBlobInlineCapacity
  db.efSlotHeaderCrcStore slotId head

/-- The overflow loop of `ef_write_blob` over the bytes that are left; every round writes at least
one of them. The slot that a round allocates is looked up again; the tail and, in the clean-up, the
head are reached through the pointers taken before. -/
def blobOverflowLoop (slotId : ℕ) (head : Ptr) : ℕ → Ptr → ℕ → List UInt8 → Db → Err × Db
  | 0, _, _, _, db => (.ok, db)
  | fuel + 1, tail, tailId, rest, db =>
      if rest = [] then (.ok, db)
      else
        match db.efAllocOverflowSlot with
        | (.ok, ovId, ov, db) =>
            let db := db.fillPayload ov (rest.take db.efBlobOverflowChunkCap)
            match db.reach tail with
            | none => (.fault, db)
            | some p =>
                let db := db.setNext p (db.efSlotToOffset ovId)
                let db := db.efSlotHeaderCrcStore tailId p
                let db := db.efSlotHeaderCrcStore ovId ov
                blobOverflowLoop slotId head fuel (db.pointer ov) ovId
                  (rest.drop db.efBlobOverflowChunkCap) db
        | (err, _, _, db) =>
            if db.isMapped then
              match db.reach head with
              | none => (.fault, db)
              | some p => (err, db.blobAbandon slotId p)
            else (.fault, db)

/-- The part of `ef_write_blob` after the old chain is gone: header, inline bytes, overflow. -/
def blobFill (db : Db) (slotId p : ℕ) (data : List UInt8) : Err × Db :=
  let head := db.pointer p
  let payload := db.efSlotPayloadPtr p
  let db := if db.txnActive then
      (db.efTxnRecordSlotPayload slotId (readBytes db.mem payload 8)).2
    else db
  let db := (db.store payload 4 blobMagic).store (payload + 4) 4 data.length
  let inlineBytes := data.take db.efBlobInlineCapacity
  let db := db.copyIn (payload + 8) inlineBytes
  match blobOverflowLoop slotId head data.length head slotId
      (data.drop db.efBlobInlineCapacity) db with
  | (.ok, db) =>
      match db.reach head with
      | none => (.fault, db)
      | some p =>
          let db := db.setStatus p statusUsed
          (.ok, (db.efSlotHeaderCrcStore slotId p).setError .ok)
  | (err, db) => (err, db)

/-- Source: `ef_blob.c`, `ef_write_blob` -/
def efWriteBlob (db : Db) (slotId : ℕ) (data : List UInt8) : Err × Db :=
  match db.efDbRequireWrite with
  | (.ok, db) =>
      if 0xFFFFFFFF < data.length then (.payloadLen, db.setError .payloadLen)
      else if db.efBlobInlineCapacity = 0 ∨ db.efBlobOverflowChunkCap = 0 then
        (.payloadLen, db.setError .payloadLen)
      else
        match db.efGetSlot slotId with
        | (none, db) => (db.lastErr, db)
        | (some head, db) =>
            let claimed : Err × Db :=
              if (db.slotAt head).status = statusFree then
                match db.efClaimSlot slotId with
                | (.ok, db) =>
                    match db.efGetSlot slotId with
                    | (none, db) => (db.lastErr, db)
                    | (some _, db) => (.ok, db)
                | (err, db) => (err, db)
              else (.ok, db)
            match claimed with
            | (.ok, db) =>
                if (db.slotAt head).status ≠ statusUsed then (.slotBusy, db.setError .slotBusy)
                else
                  match if db.txnActive then db.efBlobUnlinkChainInTxn slotId head
                    else db.efBlobReleaseChain slotId head with
                  | (.ok, db) =>
                      match db.efGetSlot slotId with
                      | (none, db) => (db.lastErr, db)
                      | (some head, db) => db.blobFill slotId head data
                  | (err, db) => (err, db)
            | (err, db) => (err, db)
  | (err, db) => (err, db)

/-- The chain loop of `ef_read_blob`, with the bytes copied so far; every round copies at least one
byte. -/
def readBlobLoop (db : Db) (need bufCap : ℕ) : ℕ → ℕ → List UInt8 → Err × List UInt8
  | 0, _, copied => (.ok, copied)
  | fuel + 1, offset, copied =>
      if need ≤ copied.length ∨ bufCap ≤ copied.length ∨ offset = 0 then (.ok, copied)
      else
        match db.efOffsetToSlotId offset with
        | .error _ => (.offset, copied)
        | .ok ovId =>
            match db.efGetSlot ovId with
            | (none, db) => (db.lastErr, copied)
            | (some ov, _) =>
                if (db.slotAt ov).status ≠ statusOverflow then (.notFound, copied)
                else
                  let n := min (min (need - copied.length) db.efBlobOverflowChunkCap)
                    (bufCap - copied.length)
                  readBlobLoop db need bufCap fuel (db.slotAt ov).nextOffset
                    (copied ++ readBytes db.mem (db.efSlotPayloadPtr ov) n)

/-- Read a blob into a buffer: the code, the bytes copied, and the total length reported.
Source: `ef_blob.c`, `ef_read_blob` -/
def efReadBlob (db : Db) (slotId bufCap : ℕ) : Err × List UInt8 × ℕ :=
  match db.efGetSlot slotId with
  | (none, db) => (db.lastErr, [], 0)
  | (some head, db) =>
      if (db.slotAt head).status ≠ statusUsed then (.slotFree, [], 0)
      else if db.efBlobMagicValid head = false then (.notFound, [], 0)
      else
        let need := db.efBlobReadLen head
        if bufCap = 0 then (.ok, [], need)
        else
          let inlineBytes := readBytes db.mem (db.efSlotPayloadPtr head + 8)
            (min (min need db.efBlobInlineCapacity) bufCap)
          let (err, copied) :=
            db.readBlobLoop need bufCap (need + 1) (db.slotAt head).nextOffset inlineBytes
          (err, copied, need)

end Db

end Endfields.Model
