import Endfields.Model.Chase
import Endfields.Model.Open

/-!
# Read-only handles, and what a handle is asked

`ef_open_readonly_ex` of `endfields.c`, and the functions that only look: the visitors of
`ef_grow.c` and `ef_index.c`, the slot iterator, and the queries. A visitor is the caller's code.
Here it is what it answers at each slot, or on each entry and those that it was shown before; what
it calls on the handle is an operation of its own.
-/

namespace Endfields.Model

open Endfields.Lib

/-- What `ef_slot_iter_next` returns: `0`, `1` with the slot, or `-1`. -/
inductive IterStep
  | done
  | found (slotId p : ℕ)
  | corrupt
  deriving DecidableEq, Repr

namespace Db

/-- Open a file, given as its bytes and its size, for reading.
Source: `endfields.c`, `ef_open_readonly_ex`, with `ef_port_open_file_existing` -/
def efOpenReadonlyEx (file : Mem) (size : ℕ) (env : Env) : Err × Db :=
  let unopened : Db := { fresh file size size .file env with readonly := true }
  if env.mallocFails then (.oom, unopened)
  else if size = 0 then (.fileSize, unopened)
  else
    match unopened.efDbInitExisting with
    | (.ok, db) => (.ok, db.setError .ok)
    | (err, db) => (err, db)

/-! ## Visiting slots -/

/-- The loop of `ef_foreach_used` over the `n` slots from `i` on, with the slots that are shown. -/
def foreachUsedLoop (db : Db) (fn : ℕ → Bool) : ℕ → ℕ → Err × List ℕ
  | 0, _ => (.ok, [])
  | n + 1, i =>
      if (db.slot i).status ≠ statusUsed then db.foreachUsedLoop fn n (i + 1)
      else if db.efSlotHeaderCrcValid i (db.slot i) = false then (.badChecksum, [])
      else if fn i then
        let (err, shown) := db.foreachUsedLoop fn n (i + 1)
        (err, i :: shown)
      else (.ok, [i])

/-- Source: `ef_grow.c`, `ef_foreach_used` -/
def efForeachUsed (db : Db) (fn : ℕ → Bool) : Err × List ℕ × Db :=
  let (err, shown) := db.foreachUsedLoop fn db.sb.maxSlots 0
  (err, shown, db.setError err)

/-- The loop of `ef_slot_iter_next` over the `n` slots from `i` on, with the new index. -/
def slotIterLoop (db : Db) : ℕ → ℕ → IterStep × ℕ
  | 0, i => (.done, i)
  | n + 1, i =>
      if (db.slot i).status ≠ statusUsed then db.slotIterLoop n (i + 1)
      else if db.efSlotHeaderCrcValid i (db.slot i) = false then (.corrupt, i + 1)
      else (.found i (db.slotPtr i), i + 1)

/-- Source: `ef_grow.c`, `ef_slot_iter_next`, on an iterator at `index` -/
def efSlotIterNext (db : Db) (index : ℕ) : IterStep × ℕ × Db :=
  let (step, index) := db.slotIterLoop (db.sb.maxSlots - index) index
  (step, index, db.setError (if step = .corrupt then .badChecksum else .ok))

/-! ## The index -/

/-- The answer of a lookup, with the payload if a buffer is given.
Source: `ef_index.c`, `ef_index_get_slot` -/
def efIndexGetSlot (db : Db) (key : List UInt8) (bufCap : Option ℕ) :
    Err × Option ℕ × List UInt8 × Db :=
  match db.efIndexFindEntry (efKeyHash (cString key)) with
  | .error err => (err, none, [], db)
  | .ok found =>
      match db.efOffsetToSlotId found.slotOffset with
      | .error err => (err, none, [], db)
      | .ok slotId =>
          match db.efPeekSlot slotId with
          | (none, db) => (.slotId, none, [], db)
          | (some p, db) =>
              match bufCap with
              | none => (.ok, some p, [], db)
              | some cap =>
                  if cap < db.efPayloadCapacity then (.payloadLen, some p, [], db)
                  else (.ok, some p, readBytes db.mem (db.efSlotPayloadPtr p) db.efPayloadCapacity, db)

/-- The loop of `ef_index_iterate_impl` over the `n` buckets from `i` on, with the entries that the
callback has been called with, the one that stops the loop included. The callback `cb` is called
with a key hash and a slot offset; what it answers may depend on the entries before, which it gets
here as well. -/
def indexIterateLoop (db : Db) (cb : List HashEntry → ℕ → ℕ → ℤ) :
    ℕ → ℕ → List HashEntry → Err × List HashEntry
  | 0, _, shown => (.ok, shown)
  | n + 1, i, shown =>
      let cur := db.entry i
      if cur.empty then db.indexIterateLoop cb n (i + 1) shown
      else
        let rc := cb shown cur.keyHash cur.slotOffset
        if rc = 1 then (.ok, shown ++ [cur])
        else if rc ≠ 0 then (.userAbort, shown ++ [cur])
        else db.indexIterateLoop cb n (i + 1) (shown ++ [cur])

/-- Source: `ef_index.c`, `ef_index_iterate`, and `ef_index_iterate_until`, which reads the same as
long as no writer moves the sequence number -/
def efIndexIterate (db : Db) (cb : List HashEntry → ℕ → ℕ → ℤ) : Err × List HashEntry :=
  if db.hashCapacity = 0 then (.ok, []) else db.indexIterateLoop cb db.hashCapacity 0 []

/-! ## Slots and blobs -/

/-- Source: `endfields.c`, `ef_get_field_ptr` -/
def efGetFieldPtr (slot : Option ℕ) (fieldOffset : ℕ) : Option ℕ :=
  if 64 ≤ fieldOffset then none else slot.map (· + fieldOffset)

/-- Source: `ef_blob.c`, `ef_blob_size` -/
def efBlobSize (db : Db) (slotId : ℕ) : ℕ :=
  if db.sb.maxSlots ≤ slotId then 0
  else if (db.slot slotId).status ≠ statusUsed then 0
  else db.efBlobReadLen (db.slotPtr slotId)

end Db

end Endfields.Model
