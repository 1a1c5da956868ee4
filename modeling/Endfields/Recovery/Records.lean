import Endfields.Resize.Free
import Endfields.Spec.Log
import Endfields.Model.Txn

/-!
# What an undo record carries

A record is written by a helper of `ef_txn.c` and read by the replay in `ef_undo.c`. The layouts
agree but for the saved tail of a `QUEUE_POP` record, of which four bytes are stored and eight are
read.

* `UndoCall`: a call of a helper; `Extracted`: what the replay takes from a record for the inverse
  action of its kind, by `Db.extract` (`Db.replayRecord_eq`).
* `Db.Appended`: what appends leave as it was, which is all of the log up to its tail.
* **`Db.extract_eq_passed_iff`**: whatever is appended behind a record, the replay takes from it
  what was passed to the helper exactly if the slot id is one of the database, or `0`, and the upper
  half of a saved tail is the word that stands behind the record.
-/

namespace Endfields.Model

open Endfields.Lib

/-- What the replay takes from a record for the inverse action of its kind. -/
inductive Extracted
  | slotStatus (slotId priorStatus priorCrc : ℕ)
  | slotNext (slotId priorNext : ℕ)
  | slotPayload (slotId : ℕ) (payloadPrefix : List UInt8)
  | slotAlloc (slotId : ℕ)
  | slotFree (slotId priorNext priorStatus : ℕ)
  | indexPut (slotOffset keyHash : ℕ)
  | indexRemove (slotOffset keyHash : ℕ)
  | queuePush (slotOffset savedTailNext : ℕ)
  | queuePop (slotOffset savedDummyNext savedTail savedNodeNext : ℕ)
  | freeCount (delta : ℤ)
  deriving DecidableEq

/-- A call of one of the `ef_txn_record_*` helpers. -/
inductive UndoCall
  | slotStatus (slotId priorStatus priorCrc : ℕ)
  | slotNext (slotId priorNext : ℕ)
  | slotPayload (slotId : ℕ) (priorPayloadFirst8 : List UInt8)
  | slotAlloc (slotId priorStatus priorCrc : ℕ)
  | slotFree (slotId priorNext priorStatus : ℕ)
  | indexPut (keyHash slotOffset : ℕ)
  | indexRemove (keyHash slotOffset : ℕ)
  | queuePush (newNodeOffset savedTailNext : ℕ)
  | queuePop (poppedNodeOffset savedDummyNext savedTail savedNodeNext : ℕ)
  | freeCount (delta : ℤ)

namespace UndoCall

/-- The call on a handle. -/
def run (db : Db) : UndoCall → Err × Db
  | slotStatus i st crc => db.efTxnRecordSlotStatus i st crc
  | slotNext i nx => db.efTxnRecordSlotNext i nx
  | slotPayload i first8 => db.efTxnRecordSlotPayload i first8
  | slotAlloc i st crc => db.efTxnRecordSlotAlloc i st crc
  | slotFree i nx st => db.efTxnRecordSlotFree i nx st
  | indexPut hash off => db.efTxnRecordIndexPut hash off
  | indexRemove hash off => db.efTxnRecordIndexRemove hash off
  | queuePush off nx => db.efTxnRecordQueuePush off nx
  | queuePop off dn tail nn => db.efTxnRecordQueuePop off dn tail nn
  | freeCount delta => db.efTxnRecordFreeCount delta

/-- The arguments are in the ranges of their C types. -/
def Typed : UndoCall → Prop
  | slotStatus _ st crc => st < u32 ∧ crc < u32
  | slotNext _ nx => nx < u64
  | slotPayload _ first8 => first8.length = 8
  | slotAlloc _ st crc => st < u32 ∧ crc < u32
  | slotFree _ nx st => nx < u64 ∧ st < u32
  | indexPut hash off => hash < u64 ∧ off < u64
  | indexRemove hash off => hash < u64 ∧ off < u64
  | queuePush off nx => off < u64 ∧ nx < u64
  | queuePop off dn tail nn => off < u64 ∧ dn < u64 ∧ tail < u64 ∧ nn < u64
  | freeCount delta => -9223372036854775808 ≤ delta ∧ delta < 9223372036854775808

instance (c : UndoCall) : Decidable c.Typed := by
  cases c <;> unfold Typed <;> infer_instance

/-- The arguments that the inverse action needs. -/
def passed : UndoCall → Extracted
  | slotStatus i st crc => .slotStatus i st crc
  | slotNext i nx => .slotNext i nx
  | slotPayload i first8 => .slotPayload i first8
  | slotAlloc i _ _ => .slotAlloc i
  | slotFree i nx st => .slotFree i nx st
  | indexPut hash off => .indexPut off hash
  | indexRemove hash off => .indexRemove off hash
  | queuePush off nx => .queuePush off nx
  | queuePop off dn tail nn => .queuePop off dn tail nn
  | freeCount delta => .freeCount delta

/-- The slot id of a helper that takes one. -/
def slotId? : UndoCall → Option ℕ
  | slotStatus i _ _ => some i
  | slotNext i _ => some i
  | slotPayload i _ => some i
  | slotAlloc i _ _ => some i
  | slotFree i _ _ => some i
  | _ => none

/-- The saved tail of a pop. -/
def savedTail? : UndoCall → Option ℕ
  | queuePop _ _ tail _ => some tail
  | _ => none

/-- The kind of the record. -/
def kind : UndoCall → UndoKind
  | slotStatus .. => .slotStatus
  | slotNext .. => .slotNext
  | slotPayload .. => .slotPayload
  | slotAlloc .. => .slotAlloc
  | slotFree .. => .slotFree
  | indexPut .. => .indexPut
  | indexRemove .. => .indexRemove
  | queuePush .. => .queuePush
  | queuePop .. => .queuePop
  | freeCount .. => .freeCount

/-- The target offset of the record. -/
def target (db : Db) : UndoCall → ℕ
  | slotStatus i _ _ => db.efSlotToOffset i
  | slotNext i _ => db.efSlotToOffset i
  | slotPayload i _ => db.efSlotToOffset i
  | slotAlloc i _ _ => db.efSlotToOffset i
  | slotFree i _ _ => db.efSlotToOffset i
  | indexPut _ off => off
  | indexRemove _ off => off
  | queuePush off _ => off
  | queuePop off _ _ _ => off
  | freeCount _ => 0

/-- The auxiliary word of the record. -/
def aux : UndoCall → ℕ
  | slotFree _ _ st => st
  | queuePop _ _ _ nn => nn
  | freeCount delta => Db.int64Word delta
  | _ => 0

/-- The snapshot of the record. -/
def before : UndoCall → List UInt8
  | slotStatus _ st crc => leBytes 4 st ++ leBytes 4 crc ++ List.replicate 4 0
  | slotNext _ nx => leBytes 8 nx ++ List.replicate 4 0
  | slotPayload _ first8 => first8 ++ List.replicate 4 0
  | slotAlloc _ st crc => leBytes 4 st ++ leBytes 4 crc ++ List.replicate 4 0
  | slotFree _ nx _ => leBytes 8 nx ++ List.replicate 4 0
  | indexPut hash _ => leBytes 8 hash ++ List.replicate 4 0
  | indexRemove hash off => leBytes 8 hash ++ leBytes 4 off
  | queuePush _ nx => leBytes 8 nx ++ List.replicate 4 0
  | queuePop _ dn tail _ => leBytes 8 dn ++ leBytes 4 tail
  | freeCount _ => List.replicate 12 0

variable {c : UndoCall}

/-- Twelve bytes of two words are the first word and half of the second. -/
lemma take_two_words (v w : ℕ) : (leBytes 8 v ++ leBytes 8 w).take 12 = leBytes 8 v ++ leBytes 4 w := by
  rw [List.take_append, List.take_of_length_le (by rw [length_leBytes]; norm_num), length_leBytes,
    take_leBytes w (by norm_num)]

/-- Every helper is one append with its kind, target and bytes.
Source: `ef_undo.c`, `ef_undo_record_append` -/
lemma run_eq (db : Db) (c : UndoCall) :
    c.run db = db.efUndoRecordAppend c.kind (c.target db) c.aux c.before := by
  cases c with
  | indexRemove hash off =>
      simp only [run, Db.efTxnRecordIndexRemove, take_two_words]
      rfl
  | queuePop off dn tail nn =>
      simp only [run, Db.efTxnRecordQueuePop, take_two_words]
      rfl
  | queuePush off nx =>
      have htake : (leBytes 8 nx ++ List.replicate 8 0).take 12 =
          leBytes 8 nx ++ List.replicate 4 0 := by
        rw [List.take_append, List.take_of_length_le (by rw [length_leBytes]; norm_num), length_leBytes]
        rfl
      simp only [run, Db.efTxnRecordQueuePush, htake]
      rfl
  | _ => rfl

/-- The `before` of a helper takes 12 bytes. -/
lemma length_before (hc : c.Typed) : c.before.length = 12 := by
  cases c with
  | slotPayload i first8 =>
      have hlen : first8.length = 8 := hc
      simp [before, hlen]
  | _ => simp [before]

end UndoCall

namespace Db

variable {db db' : Db} {c : UndoCall} {cs : List UndoCall} {rec : ℕ}

/-! ### What the replay takes from a record -/

/-- The slot id of a target offset, `0` for an offset of no slot. -/
def slotIdOf (db : Db) (off : ℕ) : ℕ :=
  match db.efOffsetToSlotId off with
  | .ok i => i
  | .error _ => 0

/-- The values that the replay takes from the record at `rec`; nothing from a record of another
kind. -/
def extract (db : Db) (rec : ℕ) : Option Extracted :=
  let slotOffset := load db.mem (rec + 4) 8
  let aux := load db.mem (rec + 12) 8
  let before := rec + 20
  (UndoKind.ofCode (load db.mem rec 1)).map fun
    | .slotStatus => .slotStatus (db.slotIdOf slotOffset) (load db.mem before 4)
        (load db.mem (before + 4) 4)
    | .slotNext => .slotNext (db.slotIdOf slotOffset) (load db.mem before 8)
    | .slotPayload => .slotPayload (db.slotIdOf slotOffset) (readBytes db.mem before 8)
    | .slotAlloc => .slotAlloc (db.slotIdOf slotOffset)
    | .slotFree => .slotFree (db.slotIdOf slotOffset) (load db.mem before 8) (aux % u32)
    | .indexPut => .indexPut slotOffset (load db.mem before 8)
    | .indexRemove => .indexRemove slotOffset (load db.mem before 8)
    | .queuePush => .queuePush slotOffset (load db.mem before 8)
    | .queuePop => .queuePop slotOffset (load db.mem before 8) (load db.mem (before + 8) 8) aux
    | .freeCount => .freeCount (wordInt64 aux)

/-- The inverse action with the values of a record. -/
def undoExtracted (db : Db) : Extracted → Err × Db
  | .slotStatus i st crc => db.efUndoRestoreSlotStatus i st crc
  | .slotNext i nx => db.efUndoRestoreSlotNext i nx
  | .slotPayload i first8 => db.undoRestoreSlotPayload i first8
  | .slotAlloc i => db.efUndoRestoreSlotAlloc i
  | .slotFree i nx st => db.efUndoRestoreSlotFree i nx st
  | .indexPut off _ =>
      match db.efIndexRemoveBySlot (db.slotIdOf off) with
      | (.notFound, db) => (.ok, db)
      | r => r
  | .indexRemove off hash =>
      let (err, _, db) := db.efIndexPutEntry hash off
      (err, db)
  | .queuePush off nx => db.efQueueRestoreBeforePush off nx
  | .queuePop off _ tail nn => db.efQueueRestoreBeforePop off tail nn
  | .freeCount delta => db.undoRestoreFreeCount delta

/-- **The replay of a record** is the inverse action with the values it takes from it. -/
lemma replayRecord_eq (db : Db) (rec : ℕ) : db.replayRecord rec =
    match db.extract rec with
    | some x => db.undoExtracted x
    | none => (.ok, db) := by
  unfold replayRecord extract
  cases UndoKind.ofCode (load db.mem rec 1) with
  | none => rfl
  | some kind => cases kind <;> rfl

/-! ### Appending -/

/-- A series of calls. -/
def appendAll (db : Db) (cs : List UndoCall) : Db := cs.foldl (fun db c => (c.run db).2) db

/-- What appends leave as it was: the handle but for its counters, and the bytes outside the segment
and in the records already there. -/
structure Appended (db db' : Db) : Prop where
  fileSize : db'.fileSize = db.fileSize
  slotsBase : db'.slotsBase = db.slotsBase
  undoBase : db'.undoLogBase = db.undoLogBase
  undoSlots : db'.undoLogSlots = db.undoLogSlots
  active : db'.txnActive = db.txnActive
  tail : db.undoTail ≤ db'.undoTail
  below : ∀ x, x < db.undoLogBase → db'.mem x = db.mem x
  records : ∀ x, db.undoLogBase + 32 ≤ x → x < db.undoLogBase + db.undoTail → db'.mem x = db.mem x

/-- Nothing was appended. -/
lemma Appended.refl (db : Db) : Appended db db :=
  ⟨rfl, rfl, rfl, rfl, rfl, le_rfl, fun _ _ => rfl, fun _ _ _ => rfl⟩

/-- Appends compose. -/
lemma Appended.trans {db'' : Db} (h : Appended db db') (h' : Appended db' db'') : Appended db db'' where
  fileSize := h'.fileSize.trans h.fileSize
  slotsBase := h'.slotsBase.trans h.slotsBase
  undoBase := h'.undoBase.trans h.undoBase
  undoSlots := h'.undoSlots.trans h.undoSlots
  active := h'.active.trans h.active
  tail := h.tail.trans h'.tail
  below x hx := (h'.below x (by rw [h.undoBase]; exact hx)).trans (h.below x hx)
  records x hx hx' := by
    have htail := h.tail
    exact (h'.records x (by rw [h.undoBase]; exact hx) (by rw [h.undoBase]; omega)).trans
      (h.records x hx hx')

/-- The superblock lies outside the segment. -/
lemma Appended.sb_eq (h : Appended db db') (hbase : 64 ≤ db.undoLogBase) : db'.sb = db.sb :=
  Superblock.read_congr fun x hx => h.below x (by omega)

/-- The handle that an append with room leaves, up to the bytes of its header. -/
lemma run_of_room (c : UndoCall) (hact : db.txnActive = true) (hbase : db.undoLogBase ≠ 0)
    (hroom : db.undoTail + 32 ≤ undoLogBytes db.undoLogSlots) :
    (c.run db).2 = ((db.recordWritten c.kind (c.target db) c.aux c.before).writeUndoHeader
      db.undoLogBase).efDbMarkMetaDirty := by
  rw [c.run_eq, efUndoRecordAppend_of_room hact hbase hroom]

/-- A full log takes no record. -/
lemma run_of_full (c : UndoCall) (hact : db.txnActive = true) (hbase : db.undoLogBase ≠ 0)
    (hfull : undoLogBytes db.undoLogSlots < db.undoTail + 32) :
    (c.run db).2 = db.setError .txnLogFull := by
  rw [c.run_eq]
  unfold efUndoRecordAppend efUndoRecordAppendRaw efUndoHeaderPtr
  rw [if_neg (by simp [hact]), if_neg hbase]
  simp only
  rw [if_pos hfull]

/-- The bytes after an append with room: those of the header and those of the record are new. -/
lemma run_mem_of_outside (hc : c.Typed) (hact : db.txnActive = true) (hbase : db.undoLogBase ≠ 0)
    (hroom : db.undoTail + 32 ≤ undoLogBytes db.undoLogSlots) {x : ℕ}
    (hheader : x < db.undoLogBase ∨ db.undoLogBase + 32 ≤ x)
    (hrec : x < db.undoLogBase + db.undoTail ∨ db.undoLogBase + db.undoTail + 32 ≤ x) :
    (c.run db).2.mem x = db.mem x := by
  rw [run_of_room c hact hbase hroom]
  change ((db.recordWritten c.kind (c.target db) c.aux c.before).writeUndoHeader
    db.undoLogBase).mem x = db.mem x
  rw [writeUndoHeader_mem_of_outside (by omega)]
  exact writeUndoRecord_mem_of_outside (UndoCall.length_before hc) hrec

/-- One append. -/
lemma appended_run (hc : c.Typed) (hact : db.txnActive = true) (hbase : db.undoLogBase ≠ 0)
    (htail : 32 ≤ db.undoTail) : Appended db (c.run db).2 := by
  by_cases hroom : db.undoTail + 32 ≤ undoLogBytes db.undoLogSlots
  · have hmem := @run_mem_of_outside db c hc hact hbase hroom
    rw [run_of_room c hact hbase hroom] at hmem ⊢
    rw [writeUndoHeader_eq_withMem] at hmem ⊢
    exact ⟨rfl, rfl, rfl, rfl, rfl, Nat.le_add_right _ _, fun x hx => hmem (by omega) (by omega),
      fun x hx hx' => hmem (by omega) (by omega)⟩
  · rw [run_of_full c hact hbase (by omega)]
    exact ⟨rfl, rfl, rfl, rfl, rfl, le_rfl, fun _ _ => rfl, fun _ _ _ => rfl⟩

/-- **A series of appends.** -/
lemma appended_appendAll (hcs : ∀ c ∈ cs, c.Typed) (hact : db.txnActive = true)
    (hbase : db.undoLogBase ≠ 0) (htail : 32 ≤ db.undoTail) : Appended db (db.appendAll cs) := by
  induction cs generalizing db with
  | nil => exact Appended.refl db
  | cons c cs ih =>
      have hone := appended_run (hcs c List.mem_cons_self) hact hbase htail
      have hle := hone.tail
      exact hone.trans (ih (fun d hd => hcs d (List.mem_cons_of_mem c hd)) (hone.active.trans hact)
        (by rw [hone.undoBase]; exact hbase) (by omega))

/-- Nothing is written by appends to a full log. -/
lemma appendAll_of_full (hact : db.txnActive = true) (hbase : db.undoLogBase ≠ 0)
    (hfull : undoLogBytes db.undoLogSlots < db.undoTail + 32) : (db.appendAll cs).mem = db.mem := by
  induction cs generalizing db with
  | nil => rfl
  | cons c cs ih =>
      change ((c.run db).2.appendAll cs).mem = db.mem
      rw [run_of_full c hact hbase hfull]
      exact ih hact hbase hfull

/-- A record starts with its kind, a zero byte and its size. -/
lemma load_writeUndoRecord (db : Db) (a : ℕ) {kind : UndoKind} {target aux : ℕ}
    {before : List UInt8} :
    load (db.writeUndoRecord a kind target aux before).mem a 4 = kind.code + 2097152 := by
  simp only [writeUndoRecord, writeRawRecord, copyIn, Db.store, zero, mem_withMem]
  have hcode : kind.code % 256 = kind.code := by cases kind <;> rfl
  -- the stores behind the size leave the first four bytes
  have hfront : ∀ m : Mem, load (writeBytes (Lib.store (Lib.store m (a + 4) 8 target) (a + 12) 8 aux)
      (a + 20) before) a 4 = load m a 4 := fun m => load_congr fun x hx hx' => by
    rw [writeBytes_apply_of_outside (by omega), store_apply_of_outside (by omega),
      store_apply_of_outside (by omega)]
  have hzero : load (memset db.mem a 0 32) (a + 1) 1 = 0 :=
    load_eq_zero fun x hx hx' => memset_apply_of_inside (by omega) (by omega)
  rw [hfront, load_add _ a 2 2, load_store_self, load_store_of_disjoint (by omega), load_add _ a 1 1,
    load_store_self, load_store_of_disjoint (by omega), hzero, pow_one, hcode]
  norm_num

/-- The word that stands behind the record that a call appends, once the calls `cs` are appended
too. -/
def followingWord (db : Db) (cs : List UndoCall) : ℕ :=
  match cs with
  | [] => load db.mem (db.undoLogBase + db.undoTail + 32) 4
  | c :: _ =>
      if db.undoTail + 64 ≤ undoLogBytes db.undoLogSlots then c.kind.code + 2097152
      else load db.mem (db.undoLogBase + db.undoTail + 32) 4

/-- The values that the record of a call carries: the slot id that the target offset stands for, and
four bytes of a saved tail with the word behind the record. -/
def carried (db : Db) (following : ℕ) : UndoCall → Extracted
  | .slotStatus i st crc => .slotStatus (db.slotIdOf (db.efSlotToOffset i)) st crc
  | .slotNext i nx => .slotNext (db.slotIdOf (db.efSlotToOffset i)) nx
  | .slotPayload i first8 => .slotPayload (db.slotIdOf (db.efSlotToOffset i)) first8
  | .slotAlloc i _ _ => .slotAlloc (db.slotIdOf (db.efSlotToOffset i))
  | .slotFree i nx st => .slotFree (db.slotIdOf (db.efSlotToOffset i)) nx st
  | .indexPut hash off => .indexPut off hash
  | .indexRemove hash off => .indexRemove off hash
  | .queuePush off nx => .queuePush off nx
  | .queuePop off dn tail nn => .queuePop off dn (tail % u32 + u32 * following) nn
  | .freeCount delta => .freeCount delta

/-- A signed number survives its word of 64 bits. -/
lemma wordInt64_int64Word {delta : ℤ} (h : -9223372036854775808 ≤ delta)
    (h' : delta < 9223372036854775808) : wordInt64 (int64Word delta % u64) = delta := by
  unfold wordInt64 int64Word u64
  split_ifs <;> omega

/-- **A record that stands in the log** is read as what it carries. -/
lemma extract_of_read (hc : c.Typed)
    (hread : UndoRec.read db.mem rec = ⟨some c.kind, c.target db % u64, c.aux % u64, c.before⟩) :
    db.extract rec = some (db.carried (load db.mem (rec + 32) 4) c) := by
  have hkind : UndoKind.ofCode (load db.mem rec 1) = some c.kind := congrArg UndoRec.kind hread
  have htarget : load db.mem (rec + 4) 8 = c.target db % u64 := congrArg UndoRec.target hread
  have haux : load db.mem (rec + 12) 8 = c.aux % u64 := congrArg UndoRec.aux hread
  have hbefore : readBytes db.mem (rec + 20) 12 = c.before := congrArg UndoRec.before hread
  have hid : ∀ i, db.efSlotToOffset i % u64 = db.efSlotToOffset i := by
    intro i
    unfold efSlotToOffset
    split_ifs
    · rfl
    · exact Nat.mod_mod _ _
  -- the first eight bytes of a snapshot that starts with a word
  have hword : ∀ {v : ℕ} {post : List UInt8}, v < u64 → c.before = leBytes 8 v ++ post →
      load db.mem (rec + 20) 8 = v := fun hv heq =>
    load_of_readBytes_of_lt [] hv (by rw [hbefore, heq]; rfl)
  unfold extract
  simp only [hkind, Option.map_some]
  cases c with
  | slotStatus i st crc =>
      obtain ⟨hst, hcrc⟩ := hc
      have hload : load db.mem (rec + 20) 4 = st :=
        load_of_readBytes_of_lt [] hst (by simpa [UndoCall.before] using hbefore)
      have hload' : load db.mem (rec + 20 + 4) 4 = crc := by
        have hl := load_of_readBytes_of_lt (leBytes 4 st) hcrc hbefore
        rwa [length_leBytes] at hl
      simp only [UndoCall.kind, htarget, UndoCall.target, hid, hload, hload', carried]
  | slotNext i nx =>
      simp only [UndoCall.kind, htarget, UndoCall.target, hid, hword hc rfl, carried]
  | slotPayload i first8 =>
      have hlen : first8.length = 8 := hc
      have hread8 : readBytes db.mem (rec + 20) 8 = first8 := by
        rw [← readBytes_take _ _ 12 8 (by norm_num), hbefore, UndoCall.before,
          List.take_append_of_le_length (by omega), List.take_of_length_le (by omega)]
      simp only [UndoCall.kind, htarget, UndoCall.target, hid, hread8, carried]
  | slotAlloc i st crc => simp only [UndoCall.kind, htarget, UndoCall.target, hid, carried]
  | slotFree i nx st =>
      obtain ⟨hnx, hst⟩ := hc
      have hmod : st % u64 % u32 = st := by
        unfold u32 at hst
        unfold u64 u32
        omega
      simp only [UndoCall.kind, htarget, UndoCall.target, hid, haux, UndoCall.aux, hmod, hword hnx rfl,
        carried]
  | indexPut hash off =>
      simp only [UndoCall.kind, htarget, UndoCall.target, Nat.mod_eq_of_lt hc.2, hword hc.1 rfl,
          carried]
  | indexRemove hash off =>
      simp only [UndoCall.kind, htarget, UndoCall.target, Nat.mod_eq_of_lt hc.2, hword hc.1 rfl,
          carried]
  | queuePush off nx =>
      simp only [UndoCall.kind, htarget, UndoCall.target, Nat.mod_eq_of_lt hc.1, hword hc.2 rfl,
          carried]
  | queuePop off dn tail nn =>
      obtain ⟨hoff, hdn, htail, hnn⟩ := hc
      have hlow : load db.mem (rec + 20 + 8) 4 = tail % u32 := by
        have hsnap : readBytes db.mem (rec + 20) 12 = leBytes 8 dn ++ leBytes 4 tail ++ [] := by
          rw [hbefore, UndoCall.before, List.append_nil]
        have hl := load_of_readBytes (leBytes 8 dn) hsnap
        rwa [length_leBytes] at hl
      have hload : load db.mem (rec + 20 + 8) 8 =
          tail % u32 + u32 * load db.mem (rec + 32) 4 := by
        rw [load_add _ (rec + 20 + 8) 4 4, hlow]
        rfl
      simp only [UndoCall.kind, htarget, UndoCall.target, Nat.mod_eq_of_lt hoff, haux, UndoCall.aux,
        Nat.mod_eq_of_lt hnn, hword hdn rfl, hload, carried]
  | freeCount delta =>
      simp only [UndoCall.kind, haux, UndoCall.aux, wordInt64_int64Word hc.1 hc.2, carried]

/-- The slot id that comes back from a target offset. -/
lemma slotIdOf_efSlotToOffset (hm : db.Mapped) (i : ℕ) :
    db.slotIdOf (db.efSlotToOffset i) = if i < db.sb.maxSlots then i else 0 := by
  have hbase := db.slotsBase_ge
  have hin := hm.inFile
  have hbound := hm.bound
  unfold slotIdOf efSlotToOffset efOffsetToSlotId
  by_cases hi : i < db.sb.maxSlots
  · rw [if_neg (Nat.not_le.mpr hi), Nat.mod_eq_of_lt (by unfold u64; omega), if_neg (by omega),
      if_neg (by omega), if_neg (by omega), if_pos hi]
    simp only
    omega
  · rw [if_pos (Nat.not_lt.mp hi), if_pos (by omega), if_neg hi]

/-- A record carries what was passed but for slot ids beyond the last one and upper halves of
tails. -/
lemma carried_eq_passed_iff (hm : db.Mapped) (hc : c.Typed) {w : ℕ} :
    db.carried w c = c.passed ↔
      (∀ i, c.slotId? = some i → i < db.sb.maxSlots ∨ i = 0) ∧
        ∀ tail, c.savedTail? = some tail → tail / u32 = w := by
  have hid : ∀ i, db.slotIdOf (db.efSlotToOffset i) = i ↔ i < db.sb.maxSlots ∨ i = 0 := by
    intro i
    rw [slotIdOf_efSlotToOffset hm]
    split_ifs <;> omega
  have htail : ∀ tail, tail % u32 + u32 * w = tail ↔ tail / u32 = w := by
    intro tail
    unfold u32
    omega
  cases c <;> simp [carried, UndoCall.passed, UndoCall.slotId?, UndoCall.savedTail?, hid, htail]

/-- The record of an append with room. -/
lemma read_run (hc : c.Typed) (hact : db.txnActive = true) (hbase : db.undoLogBase ≠ 0)
    (htail : 32 ≤ db.undoTail) (hroom : db.undoTail + 32 ≤ undoLogBytes db.undoLogSlots) :
    (c.run db).2.undoTail = db.undoTail + 32 ∧
      UndoRec.read (c.run db).2.mem (db.undoLogBase + db.undoTail) =
        ⟨some c.kind, c.target db % u64, c.aux % u64, c.before⟩ ∧
      load (c.run db).2.mem (db.undoLogBase + db.undoTail) 4 = c.kind.code + 2097152 := by
  have hheader : ∀ x, db.undoLogBase + db.undoTail ≤ x → (c.run db).2.mem x =
      (db.writeUndoRecord (db.undoLogBase + db.undoTail) c.kind
          (c.target db) c.aux c.before).mem x := by
    intro x hx
    rw [run_of_room c hact hbase hroom]
    change ((db.recordWritten c.kind (c.target db) c.aux c.before).writeUndoHeader
      db.undoLogBase).mem x = _
    rw [writeUndoHeader_mem_of_outside (.inr (by omega))]
    rfl
  refine ⟨?_, ?_, ?_⟩
  · rw [run_of_room c hact hbase hroom, writeUndoHeader_eq_withMem]
    rfl
  · rw [← read_writeUndoRecord db _ (UndoCall.length_before hc)]
    exact UndoRec.read_congr fun x hx _ => hheader x hx
  · rw [← load_writeUndoRecord db]
    exact load_congr fun x hx _ => hheader x hx

/-- The word behind the record of a call, after the calls that follow it. -/
lemma load_followingWord (hc : c.Typed) (hcs : ∀ c ∈ cs, c.Typed) (hact : db.txnActive = true)
    (hbase : db.undoLogBase ≠ 0) (htail : 32 ≤ db.undoTail)
    (hroom : db.undoTail + 32 ≤ undoLogBytes db.undoLogSlots) :
    load ((c.run db).2.appendAll cs).mem (db.undoLogBase + db.undoTail + 32) 4 =
      db.followingWord cs := by
  have hone := appended_run hc hact hbase htail
  have htail₁ := (read_run hc hact hbase htail hroom).1
  have hact₁ := hone.active.trans hact
  have hbase₁ : (c.run db).2.undoLogBase ≠ 0 := by rwa [hone.undoBase]
  have hkept : load (c.run db).2.mem (db.undoLogBase + db.undoTail + 32) 4 =
      load db.mem (db.undoLogBase + db.undoTail + 32) 4 := load_congr fun x hx hx' =>
    run_mem_of_outside hc hact hbase hroom (by omega) (by omega)
  cases cs with
  | nil => exact hkept
  | cons d ds =>
      by_cases hroom₁ : db.undoTail + 64 ≤ undoLogBytes db.undoLogSlots
      · have hd := hcs d List.mem_cons_self
        obtain ⟨htail₂, -, hword⟩ := read_run hd hact₁ hbase₁ (by omega)
          (by rw [htail₁, hone.undoSlots]; exact hroom₁)
        have htwo := appended_run hd hact₁ hbase₁ (by omega)
        have hrest := appended_appendAll (fun e he => hcs e (List.mem_cons_of_mem d he))
          (htwo.active.trans hact₁) (by rwa [htwo.undoBase]) (by omega)
        rw [htail₁, hone.undoBase] at hword
        rw [followingWord, if_pos hroom₁, ← hword, Nat.add_assoc]
        refine load_congr fun x hx hx' => hrest.records x ?_ ?_
        · rw [htwo.undoBase, hone.undoBase]
          omega
        · rw [htwo.undoBase, hone.undoBase, htail₂, htail₁]
          omega
      · rw [followingWord, if_neg hroom₁, appendAll_of_full hact₁ hbase₁
          (by rw [htail₁, hone.undoSlots]; omega), hkept]

/-- **What the replay takes from a record** is what was passed to the helper that appended it,
whatever is appended behind it, exactly if a slot id is one of the database or `0`, and the upper
half of a saved tail is the word behind the record. -/
theorem extract_eq_passed_iff (hm : db.Mapped) (hact : db.txnActive = true)
    (hbase : 64 ≤ db.undoLogBase) (htail : 32 ≤ db.undoTail)
    (hroom : db.undoTail + 32 ≤ undoLogBytes db.undoLogSlots) (hc : c.Typed)
    (hcs : ∀ c ∈ cs, c.Typed) :
    (db.appendAll (c :: cs)).extract (db.undoLogBase + db.undoTail) = some c.passed ↔
      (∀ i, c.slotId? = some i → i < db.sb.maxSlots ∨ i = 0) ∧
        ∀ tail, c.savedTail? = some tail → tail / u32 = db.followingWord cs := by
  have hne : db.undoLogBase ≠ 0 := by omega
  have hone := appended_run hc hact hne htail
  obtain ⟨htail₁, hread, -⟩ := read_run hc hact hne htail hroom
  have hrest := appended_appendAll hcs (hone.active.trans hact) (by rwa [hone.undoBase]) (by omega)
  have hall := hone.trans hrest
  have hword := load_followingWord hc hcs hact hne htail hroom
  change ((c.run db).2.appendAll cs).extract (db.undoLogBase + db.undoTail) = some c.passed ↔ _
  generalize (c.run db).2.appendAll cs = db₂ at hrest hall hword
  have hsb : db₂.sb = db.sb := hall.sb_eq hbase
  have hm₂ : db₂.Mapped := by
    refine ⟨?_, ?_⟩
    · rw [hall.slotsBase, hsb, hall.fileSize]
      exact hm.inFile
    · rw [hall.fileSize]
      exact hm.bound
  have htarget : c.target db₂ = c.target db := by
    have hoff : ∀ i, db₂.efSlotToOffset i = db.efSlotToOffset i := by
      intro i
      unfold efSlotToOffset
      rw [hsb, hall.slotsBase]
    cases c <;> simp [UndoCall.target, hoff]
  have hread₂ : UndoRec.read db₂.mem (db.undoLogBase + db.undoTail) =
      ⟨some c.kind, c.target db₂ % u64, c.aux % u64, c.before⟩ := by
    rw [htarget, ← hread]
    refine UndoRec.read_congr fun x hx hx' => hrest.records x ?_ ?_
    · rw [hone.undoBase]
      omega
    · rw [hone.undoBase, htail₁]
      omega
  rw [extract_of_read hc hread₂, hword, Option.some_inj, carried_eq_passed_iff hm₂ hc, hsb]

/-- A change of a link, with a change of the free count behind it. -/
theorem extract_eq_passed_of_next :
    let db := (newMemory 1 0).efTxnBegin.2
    (db.appendAll [.slotNext 0 64, .freeCount 1]).extract (db.undoLogBase + db.undoTail) =
        some (.slotNext 0 64) ↔
      (∀ i, some 0 = some i → i < db.sb.maxSlots ∨ i = 0) ∧
        ∀ tail, none = some tail → tail / u32 = db.followingWord [.freeCount 1] :=
  extract_eq_passed_iff (by decide +kernel) (by decide +kernel) (by decide +kernel) (by decide +kernel)
    (by decide +kernel) (by decide) (by decide)

/-- A pop with the tail at offset 192, with a change of the free count behind it: the kind and the
size of the second record come back as the upper half of the tail. -/
theorem extract_loses_tail :
    let db := (newMemory 3 0).efTxnBegin.2
    db.Mapped ∧ db.txnActive = true ∧ UndoCall.Typed (.queuePop 128 128 192 192) ∧
      (db.appendAll [.queuePop 128 128 192 192, .freeCount (-1)]).extract
          (db.undoLogBase + db.undoTail) =
        some (.queuePop 128 128 (192 + u32 * (32 * 65536 + 10)) 192) := by decide +kernel

end Db

end Endfields.Model
