import Endfields.Spec.Slots

/-!
# The undo log on the view

* **Append** (`efUndoRecordAppend_spec`): inside a transaction with room in the log, an append adds
  its record behind the records already there and touches nothing else of the view.
* **Records.** `UndoRec.ofStatus`, … are the records the `ef_txn_record_*` helpers write.
-/

namespace Endfields.Model

open Endfields.Lib

/-! ### The segment as a memory of its own -/

/-- A word of the log, read off the segment. -/
lemma load_segment (g : Geometry) (m : Mem) (a w : ℕ) :
    load (g.segment m) a w = load m (g.undoBase + a) w := by
  induction w generalizing a with
  | zero => rfl
  | succ w ih =>
      rw [load, load, ih]
      rfl

/-- Bytes of the log, read off the segment. -/
lemma readBytes_segment (g : Geometry) (m : Mem) (a n : ℕ) :
    readBytes (g.segment m) a n = readBytes m (g.undoBase + a) n := by
  induction n generalizing a with
  | zero => rfl
  | succ n ih =>
      rw [readBytes, readBytes, ih]
      rfl

/-- A record of the log, read off the segment. -/
lemma UndoRec.read_segment (g : Geometry) (m : Mem) (a : ℕ) :
    UndoRec.read (g.segment m) a = UndoRec.read m (g.undoBase + a) := by
  simp only [UndoRec.read, load_segment, readBytes_segment, Nat.add_assoc]

/-! ### Writing a record -/

namespace Db

variable {g : Geometry} {db : Db} {kind : UndoKind} {target aux : ℕ} {before : List UInt8}

/-- A record is written inside its 32 bytes. -/
lemma writeUndoRecord_mem_of_outside {a x : ℕ} (hb : before.length = 12)
    (hx : x < a ∨ a + 32 ≤ x) :
    (db.writeUndoRecord a kind target aux before).mem x = db.mem x := by
  simp only [writeUndoRecord, writeRawRecord, copyIn, store, zero, mem_withMem]
  rw [writeBytes_apply_of_outside (by omega), store_apply_of_outside (by omega),
    store_apply_of_outside (by omega), store_apply_of_outside (by omega),
    store_apply_of_outside (by omega), memset_apply_of_outside (by omega)]

/-- A record leaves the bytes before it alone.
Source: `ef_undo.c`, `ef_undo_record_append` -/
lemma writeUndoRecord_mem_below {a x : ℕ} (hx : x < a) :
    (db.writeUndoRecord a kind target aux before).mem x = db.mem x := by
  simp only [writeUndoRecord, writeRawRecord, copyIn, store, zero, mem_withMem]
  rw [writeBytes_apply_of_outside (by omega), store_apply_of_outside (by omega),
    store_apply_of_outside (by omega), store_apply_of_outside (by omega),
    store_apply_of_outside (by omega), memset_apply_of_outside (by omega)]

/-- A written record reads back. -/
lemma read_writeUndoRecord (db : Db) (a : ℕ) (hb : before.length = 12) :
    UndoRec.read (db.writeUndoRecord a kind target aux before).mem a =
      ⟨some kind, target % u64, aux % u64, before⟩ := by
  simp only [writeUndoRecord, writeRawRecord, copyIn, store, zero, mem_withMem]
  have hload : ∀ (m : Mem) c w, c + w ≤ a + 20 →
      load (writeBytes m (a + 20) before) c w = load m c w := by
    intro m c w hc
    exact load_congr fun x hx hx' => writeBytes_apply_of_outside (by omega)
  have hcode : kind.code % 256 = kind.code := by cases kind <;> rfl
  have hbefore : ∀ m : Mem, readBytes (writeBytes m (a + 20) before) (a + 20) 12 = before := by
    intro m
    have h := readBytes_writeBytes_self m (a + 20) before
    rwa [hb] at h
  unfold UndoRec.read
  rw [hload _ a 1 (by omega), hload _ (a + 4) 8 (by omega), hload _ (a + 12) 8 (by omega), hbefore]
  rw [load_store_of_disjoint (by omega), load_store_of_disjoint (by omega),
    load_store_of_disjoint (by omega), load_store_self, pow_one, hcode, UndoKind.ofCode_code]
  rw [load_store_of_disjoint (b := a + 4) (by omega), load_store_self, load_store_self]
  rfl

/-- The header is written inside its first 20 bytes. -/
lemma writeUndoHeader_mem_of_outside {h x : ℕ} (hx : x < h ∨ h + 20 ≤ x) :
    (db.writeUndoHeader h).mem x = db.mem x := by
  unfold writeUndoHeader store
  simp only [mem_withMem, withMem_undoRecordCount]
  split_ifs
  · simp only [mem_withMem]
    rw [store_apply_of_outside (by omega), store_apply_of_outside (by omega),
      store_apply_of_outside (by omega), store_apply_of_outside (by omega)]
  · simp only [mem_withMem]
    rw [store_apply_of_outside (by omega), store_apply_of_outside (by omega),
      store_apply_of_outside (by omega)]

/-- The header changes bytes only. -/
lemma writeUndoHeader_eq_withMem (h : ℕ) :
    db.writeUndoHeader h = db.withMem (db.writeUndoHeader h).mem := by
  unfold writeUndoHeader store
  simp only [mem_withMem, withMem_undoRecordCount]
  split_ifs <;> rfl

/-- The header names the end of the log. -/
lemma load_writeUndoHeader (db : Db) (h : ℕ) :
    load (db.writeUndoHeader h).mem h 4 = undoHeaderMagic ∧
      load (db.writeUndoHeader h).mem (h + 8) 8 = db.undoTail % u64 := by
  unfold writeUndoHeader store
  simp only [mem_withMem, withMem_undoRecordCount]
  split_ifs with hm
  · simp only [mem_withMem]
    constructor
    · rw [load_store_of_disjoint (by omega), load_store_self]
      rfl
    · rw [load_store_of_disjoint (by omega), load_store_of_disjoint (by omega),
        load_store_of_disjoint (by omega), load_store_self]
      rfl
  · simp only [mem_withMem]
    constructor
    · rw [load_store_of_disjoint (by omega)]
      exact not_not.mp hm
    · rw [load_store_of_disjoint (by omega), load_store_of_disjoint (by omega), load_store_self]
      rfl

/-- A change of the undo segment shows in the segment only. -/
lemma view_of_segment_write (db : Db) {m : Mem} (h : ∀ x, x < g.undoBase → m x = db.mem x) :
    (db.withMem m).view g =
      (db.view g).setSeg ⟨db.undoTail, db.undoRecordCount, g.segment m⟩ := by
  have hb : 64 ≤ g.undoBase := by
    have := g.base_ge
    unfold Geometry.undoBase
    omega
  rw [view_withMem, Superblock.read_congr fun x hx => h x (by omega),
    Geometry.slots_of_agree fun x _ hx => h x hx]
  rfl

/-! ### Append -/

/-- An append outside a transaction does nothing. -/
lemma efUndoRecordAppend_of_inactive (h : db.txnActive = false) :
    db.efUndoRecordAppend kind target aux before = (.ok, db) := by
  unfold efUndoRecordAppend efUndoRecordAppendRaw
  rw [if_pos h]

/-- The handle after the record itself is written, with its counters moved on. -/
def recordWritten (db : Db) (kind : UndoKind) (target aux : ℕ) (before : List UInt8) : Db :=
  { db.writeUndoRecord (db.undoLogBase + db.undoTail) kind target aux before with
    undoTail := db.undoTail + 32
    undoRecordCount := (db.undoRecordCount + 1) % u32 }

/-- With room an append writes the record, then the header.
Source: `ef_undo.c`, `ef_undo_record_append` -/
lemma efUndoRecordAppend_of_room (hact : db.txnActive = true) (hbase : db.undoLogBase ≠ 0)
    (hroom : db.undoTail + 32 ≤ undoLogBytes db.undoLogSlots) :
    db.efUndoRecordAppend kind target aux before =
      (.ok, ((db.recordWritten kind target aux before).writeUndoHeader
        db.undoLogBase).efDbMarkMetaDirty) := by
  unfold efUndoRecordAppend efUndoRecordAppendRaw efUndoHeaderPtr
  simp only [hact, Bool.true_eq_false, if_false, hbase, Nat.not_lt.mpr hroom]
  rfl

/-- Whatever becomes of the record, an append writes in the undo segment alone. -/
lemma efUndoRecordAppend_view (h : (db.view g).Ok g) (kind : UndoKind) (target aux : ℕ)
    (before : List UInt8) :
    ∃ seg, (db.efUndoRecordAppend kind target aux before).2.view g = (db.view g).setSeg seg := by
  have hbase : db.undoLogBase = g.undoBase := h.undoBase
  by_cases hact : db.txnActive = true
  swap
  · rw [efUndoRecordAppend_of_inactive (by simpa using hact)]
    exact ⟨_, rfl⟩
  have hne : db.undoLogBase ≠ 0 := by
    have := g.base_ge
    rw [hbase, Geometry.undoBase]
    omega
  by_cases hroom : db.undoTail + 32 ≤ undoLogBytes db.undoLogSlots
  · rw [efUndoRecordAppend_of_room hact hne hroom, view_efDbMarkMetaDirty, writeUndoHeader_eq_withMem]
    refine ⟨_, view_of_segment_write ({ db with
      undoTail := db.undoTail + 32
      undoRecordCount := (db.undoRecordCount + 1) % u32 } : Db) fun x hx => ?_⟩
    rw [writeUndoHeader_mem_of_outside (.inl (by omega))]
    exact writeUndoRecord_mem_below (by omega)
  · unfold efUndoRecordAppend efUndoRecordAppendRaw efUndoHeaderPtr
    simp only [hact, Bool.true_eq_false, if_false, hne, if_pos (not_le.mp hroom)]
    exact ⟨_, rfl⟩

/-- **Append.** Inside a transaction the record goes behind the others, if there is room. -/
lemma efUndoRecordAppend_spec (kind : UndoKind) (target aux : ℕ) (h : (db.view g).Ok g)
    (hact : (db.view g).core.txnActive = true)
    {rs : List UndoRec} (hrs : (db.view g).seg.Holds rs) (hb : before.length = 12)
    (hroom : rs.length < undoLogDefaultSlots) :
    ∃ seg, (db.efUndoRecordAppend kind target aux before).2.view g = (db.view g).setSeg seg ∧
      seg.Holds (rs ++ [⟨some kind, target % u64, aux % u64, before⟩]) := by
  have hbase : db.undoLogBase = g.undoBase := h.undoBase
  have hslots : db.undoLogSlots = undoLogDefaultSlots := h.undoSlots
  have htail : db.undoTail = 32 + 32 * rs.length := hrs.tail
  have hcount : db.undoRecordCount = rs.length := hrs.count
  simp only [undoLogDefaultSlots] at hroom hslots
  have hne : db.undoLogBase ≠ 0 := by
    have := g.base_ge
    rw [hbase, Geometry.undoBase]
    omega
  rw [efUndoRecordAppend_of_room hact hne (by simp only [undoLogBytes]; omega)]
  set a := g.undoBase + (32 + 32 * rs.length) with ha
  have hm₁ : (db.recordWritten kind target aux before).mem =
      (db.writeUndoRecord a kind target aux before).mem := by
    rw [ha, ← hbase, ← htail]
    rfl
  rw [hbase]
  set m := ((db.recordWritten kind target aux before).writeUndoHeader g.undoBase).mem with hm
  have houtside : ∀ x, x < g.undoBase ∨ (g.undoBase + 20 ≤ x ∧ x < a) → m x = db.mem x := by
    intro x hx
    rw [hm, writeUndoHeader_mem_of_outside (by omega), hm₁,
      writeUndoRecord_mem_of_outside hb (by omega)]
  have hnew : UndoRec.read m a = ⟨some kind, target % u64, aux % u64, before⟩ := by
    rw [← read_writeUndoRecord db a hb, ← hm₁]
    exact UndoRec.read_congr fun x hx _ => writeUndoHeader_mem_of_outside (by omega)
  have hold : ∀ j, j < rs.length → UndoRec.read (g.segment m) (32 + 32 * j) =
      UndoRec.read (g.segment db.mem) (32 + 32 * j) := by
    intro j hj
    exact UndoRec.read_congr fun x hx hx' => houtside _ (.inr (by omega))
  refine ⟨⟨db.undoTail + 32, (db.undoRecordCount + 1) % u32, g.segment m⟩, ?_, ?_⟩
  · simp only [view_efDbMarkMetaDirty]
    rw [writeUndoHeader_eq_withMem]
    exact view_of_segment_write ({ db with
      undoTail := db.undoTail + 32
      undoRecordCount := (db.undoRecordCount + 1) % u32 } : Db) fun x hx => houtside x (.inl hx)
  · refine ⟨?_, ?_, ?_, ?_, ?_⟩
    · simp only [List.length_append, List.length_singleton]
      omega
    · simp only [List.length_append, List.length_singleton, hcount, u32]
      omega
    · simp only [List.length_append, List.length_singleton, undoLogDefaultSlots]
      omega
    · have hlog := hrs.log
      simp only [Segment.log, List.length_append, List.length_singleton, List.range_succ,
        List.map_append, List.map_singleton, UndoRec.read_segment g m (32 + 32 * rs.length)] at *
      rw [← ha, hnew]
      congr 1
      rw [← hlog]
      simp only [List.length_map, List.length_range]
      exact List.map_congr_left fun j hj => hold j (by simpa using hj)
    · have hh := load_writeUndoHeader (db.recordWritten kind target aux before) g.undoBase
      have ht : (db.recordWritten kind target aux before).undoTail = db.undoTail + 32 := rfl
      rw [← hm, ht] at hh
      unfold Segment.Header
      rw [if_neg (by simp)]
      simp only [load_segment, Nat.add_zero, List.length_append, List.length_singleton]
      refine ⟨hh.1, ?_⟩
      rw [hh.2, htail]
      simp only [u64]
      omega

end Db

end Endfields.Model
