import Endfields.Lib.Rollback
import Endfields.Spec.Frame
import Endfields.Spec.Log

/-!
# Undoing slot records

The records that slot operations leave in the log, as a typed list, and what undoing them does to
the view.

* `SlotRec` and `SlotRec.encode`: the records, and the bytes they are stored as.
* `View.undo`: the inverse action of one record.
* **Replay** (`efUndoReplayReverse_of_undone`): when the records of the log can be undone one after
  the other, from the last to the first, the replay does just that; slot records can
  (`undone_slotRecs`).
-/

namespace Endfields.Model

open Endfields.Lib

/-- The records of slot operations. -/
inductive SlotRec
  | alloc (i crc : ℕ)
  | free (i next status : ℕ)
  | status (i status crc : ℕ)
  | next (i next : ℕ)
  | payload (i : ℕ) (first8 : List UInt8)
  | freeCount (delta : ℤ)

namespace SlotRec

/-- A record as it stands in the log. -/
def encode (g : Geometry) : SlotRec → UndoRec
  | alloc i crc => ⟨some .slotAlloc, g.ptr i, 0,
      leBytes 4 statusFree ++ leBytes 4 crc ++ List.replicate 4 0⟩
  | free i nx st => ⟨some .slotFree, g.ptr i, st, leBytes 8 nx ++ List.replicate 4 0⟩
  | status i st crc => ⟨some .slotStatus, g.ptr i, 0,
      leBytes 4 st ++ leBytes 4 crc ++ List.replicate 4 0⟩
  | next i nx => ⟨some .slotNext, g.ptr i, 0, leBytes 8 nx ++ List.replicate 4 0⟩
  | payload i first8 => ⟨some .slotPayload, g.ptr i, 0, first8 ++ List.replicate 4 0⟩
  | freeCount delta => ⟨some .freeCount, 0, Db.int64Word delta % u64, List.replicate 12 0⟩

/-- The values of a record are in the range of their fields. -/
def Valid (g : Geometry) : SlotRec → Prop
  | alloc i _ => i < g.n
  | free i nx st => i < g.n ∧ nx < u64 ∧ st < u32
  | status i st crc => i < g.n ∧ st < u32 ∧ crc < u32
  | next i nx => i < g.n ∧ nx < u64
  | payload i first8 => i < g.n ∧ first8.length = 8
  | freeCount delta => delta = 1 ∨ delta = -1

end SlotRec

namespace View

/-- A slot given its old link and status back. -/
def restored (crcOn : Bool) (i next status : ℕ) (s : Slot) : Slot :=
  if efSlotStatusHasCrc status then
    Slot.sealed crcOn i { s with nextOffset := next, status := status }
  else { s with nextOffset := next, status := status, headerCrc := 0 }

/-- The inverse action of a record. -/
def undo (g : Geometry) : SlotRec → View → View
  | .alloc i _, v =>
      (v.setSb (v.sb.setFreeListHead (g.ptr i))).setSlot i
        { v.slots i with nextOffset := v.sb.freeListHead, status := statusFree, headerCrc := 0 }
  | .free i next status, v => v.setSlot i (restored v.sb.slotCrc i next status (v.slots i))
  | .status i status crc, v =>
      v.setSlot i { v.slots i with
        status := status
        headerCrc := if efSlotStatusHasCrc status then crc else 0 }
  | .next i next, v =>
      v.setSlot i (Slot.sealed v.sb.slotCrc i { v.slots i with nextOffset := next })
  | .payload i first8, v =>
      v.setSlot i (Slot.sealed v.sb.slotCrc i
        { v.slots i with payload := first8 ++ (v.slots i).payload.drop 8 })
  | .freeCount delta, v =>
      v.setSb (v.sb.setFreeCount
        (if delta < 0 ∧ v.sb.freeCount < (-delta).toNat % u32 then 0
        else (((v.sb.freeCount : ℤ) - delta) % (u32 : ℤ)).toNat))

variable {g : Geometry} {v : View} {r : SlotRec}

/-- An undone record keeps the handle in order. -/
lemma undo_ok (h : v.Ok g) : (undo g r v).Ok g := by
  cases r <;> exact h.congr rfl rfl rfl

/-- An undone record leaves the log alone. -/
@[simp] lemma undo_seg : (undo g r v).seg = v.seg := by
  cases r <;> rfl

/-- An undone record keeps the geometry. -/
@[simp] lemma undo_core : (undo g r v).core = v.core := by
  cases r <;> rfl

end View

namespace Db

variable {g : Geometry} {db : Db}

/-! ### The inverse actions on the view -/

variable {i st crc nx : ℕ}

/-- A status record is undone.
Source: `ef_undo.c`, `ef_undo_restore_slot_status` -/
lemma efUndoRestoreSlotStatus_spec (h : (db.view g).Ok g) (hi : i < g.n) (hst : st < u32)
    (hcrc : crc < u32) :
    ∃ db', db.efUndoRestoreSlotStatus i st crc = (.ok, db') ∧
      db'.view g = View.undo g (.status i st crc) (db.view g) := by
  unfold efUndoRestoreSlotStatus
  rw [efPeekSlot_of_lt h.toBound hi]
  refine ⟨_, rfl, ?_⟩
  by_cases hc : efSlotStatusHasCrc st = true
  · simp [hc, view_setHeaderCrc hi, view_setStatus hi, View.undo, Nat.mod_eq_of_lt hst,
      Nat.mod_eq_of_lt hcrc]
  · simp [hc, view_setHeaderCrc hi, view_setStatus hi, View.undo, Nat.mod_eq_of_lt hst]

/-- A link record is undone.
Source: `ef_undo.c`, `ef_undo_restore_slot_next` -/
lemma efUndoRestoreSlotNext_spec (h : (db.view g).Ok g) (hi : i < g.n) (hnx : nx < u64) :
    ∃ db', db.efUndoRestoreSlotNext i nx = (.ok, db') ∧
      db'.view g = View.undo g (.next i nx) (db.view g) := by
  unfold efUndoRestoreSlotNext
  rw [efPeekSlot_of_lt h.toBound hi]
  refine ⟨_, rfl, ?_⟩
  simp [view_efSlotHeaderCrcStore hi, view_setNext hi, View.undo, Nat.mod_eq_of_lt hnx]

/-- A payload record is undone.
Source: `ef_undo.c`, `ef_undo_replay_reverse` -/
lemma undoRestoreSlotPayload_spec (h : (db.view g).Ok g) (hi : i < g.n) {bs : List UInt8}
    (hbs : bs.length = 8) :
    ∃ db', db.undoRestoreSlotPayload i bs = (.ok, db') ∧
      db'.view g = View.undo g (.payload i bs) (db.view g) := by
  have hschema : ((db.setError .ok).view g).sb.schemaVersion = schemaVersion := h.schema
  have hcopy := view_copyIn_payload (db.setError .ok) hi 0 bs (by omega)
  unfold undoRestoreSlotPayload
  rw [efPeekSlot_of_lt h.toBound hi]
  refine ⟨_, rfl, ?_⟩
  simp only [efSlotPayloadPtr_eq hschema, view_efSlotHeaderCrcStore hi]
  simp only [Nat.add_zero] at hcopy
  rw [hcopy]
  simp [View.undo, hbs]

/-- An allocation is undone.
Source: `ef_undo.c`, `ef_undo_restore_slot_alloc` -/
lemma efUndoRestoreSlotAlloc_spec (h : (db.view g).Ok g) (hi : i < g.n) :
    ∃ db', db.efUndoRestoreSlotAlloc i = (.ok, db') ∧
      db'.view g = View.undo g (.alloc i crc) (db.view g) := by
  have hoff : (db.setError .ok).efSlotToOffset i = g.ptr i := efSlotToOffset_of_lt h.toBound hi
  have hptr : g.ptr i % u64 = g.ptr i := Nat.mod_eq_of_lt (g.ptr_lt_u64 hi)
  have hhead : (db.view g).sb.freeListHead % u64 = (db.view g).sb.freeListHead :=
    Nat.mod_eq_of_lt (freeListHead_lt g db)
  unfold efUndoRestoreSlotAlloc
  rw [efPeekSlot_of_lt h.toBound hi]
  refine ⟨_, rfl, ?_⟩
  simp [hoff, hptr, hhead, sb_eq g, view_setHeaderCrc hi, view_setStatus hi, view_setNext hi,
    View.undo]

/-- A release is undone.
Source: `ef_undo.c`, `ef_undo_restore_slot_free` -/
lemma efUndoRestoreSlotFree_spec (h : (db.view g).Ok g) (hi : i < g.n) (hnx : nx < u64)
    (hst : st < u32) :
    ∃ db', db.efUndoRestoreSlotFree i nx st = (.ok, db') ∧
      db'.view g = View.undo g (.free i nx st) (db.view g) := by
  unfold efUndoRestoreSlotFree
  rw [efPeekSlot_of_lt h.toBound hi]
  refine ⟨_, rfl, ?_⟩
  by_cases hc : efSlotStatusHasCrc st = true
  · simp [hc, view_efSlotHeaderCrcStore hi, view_setStatus hi, view_setNext hi, View.undo,
      View.restored, Nat.mod_eq_of_lt hst, Nat.mod_eq_of_lt hnx]
  · simp [hc, view_setHeaderCrc hi, view_setStatus hi, view_setNext hi, View.undo, View.restored,
      Nat.mod_eq_of_lt hst, Nat.mod_eq_of_lt hnx]

/-- A change of the free count is undone.
Source: `ef_undo.c`, `ef_undo_replay_reverse` -/
lemma undoRestoreFreeCount_spec (delta : ℤ) :
    ∃ db', db.undoRestoreFreeCount delta = (.ok, db') ∧
      db'.view g = View.undo g (.freeCount delta) (db.view g) := by
  have hpos : (0 : ℤ) < (u32 : ℤ) := by norm_num [u32]
  have hlt := Int.emod_lt_of_pos (db.sb.freeCount - delta : ℤ) hpos
  have hge := Int.emod_nonneg (db.sb.freeCount - delta : ℤ) hpos.ne'
  have hbound : (if delta < 0 ∧ db.sb.freeCount < (-delta).toNat % u32 then 0
      else (((db.sb.freeCount : ℤ) - delta) % (u32 : ℤ)).toNat) < u32 := by
    split_ifs
    · norm_num [u32]
    · omega
  refine ⟨_, rfl, ?_⟩
  simp only [view_efDbMarkMetaDirty, view_setFreeCount, View.undo]
  rw [Nat.mod_eq_of_lt hbound]
  rfl

/-! ### The replay -/

/-- The inverse action of a slot record on the handle. -/
def undoSlotRec (db : Db) : SlotRec → Err × Db
  | .alloc i _ => db.efUndoRestoreSlotAlloc i
  | .free i next status => db.efUndoRestoreSlotFree i next status
  | .status i status crc => db.efUndoRestoreSlotStatus i status crc
  | .next i next => db.efUndoRestoreSlotNext i next
  | .payload i first8 => db.undoRestoreSlotPayload i first8
  | .freeCount delta => db.undoRestoreFreeCount delta

/-- **One record is undone**, whatever its kind.
Source: `ef_undo.c`, `ef_undo_replay_reverse` -/
lemma undoSlotRec_spec (h : (db.view g).Ok g) {r : SlotRec} (hr : r.Valid g) :
    ∃ db', db.undoSlotRec r = (.ok, db') ∧ db'.view g = View.undo g r (db.view g) := by
  unfold undoSlotRec
  cases r with
  | alloc i crc =>
      have hi : i < g.n := hr
      exact efUndoRestoreSlotAlloc_spec h hi
  | free i nx st =>
      obtain ⟨hi, hnx, hst⟩ := hr
      exact efUndoRestoreSlotFree_spec h hi hnx hst
  | status i st crc =>
      obtain ⟨hi, hst, hcrc⟩ := hr
      exact efUndoRestoreSlotStatus_spec h hi hst hcrc
  | next i nx =>
      obtain ⟨hi, hnx⟩ := hr
      exact efUndoRestoreSlotNext_spec h hi hnx
  | payload i first8 =>
      obtain ⟨hi, hlen⟩ := hr
      exact undoRestoreSlotPayload_spec h hi hlen
  | freeCount delta => exact undoRestoreFreeCount_spec delta

/-- The inverse actions of slot records leave the handle's layout and its index. -/
lemma frame_undoSlotRec (db : Db) (r : SlotRec) : Frame db (db.undoSlotRec r).2 := by
  unfold undoSlotRec
  cases r with
  | alloc i crc => exact frame_efUndoRestoreSlotAlloc db i
  | free i nx st => exact frame_efUndoRestoreSlotFree db i nx st
  | status i st crc => exact frame_efUndoRestoreSlotStatus db i st crc
  | next i nx => exact frame_efUndoRestoreSlotNext db i nx
  | payload i first8 => exact frame_undoRestoreSlotPayload db i first8
  | freeCount delta => exact frame_undoRestoreFreeCount db delta

/-- Undoing a stored slot record is its inverse action. -/
lemma replayRecord_encode (h : (db.view g).Ok g) {r : SlotRec} (hr : r.Valid g) {a : ℕ}
    (hread : UndoRec.read db.mem a = r.encode g) : db.replayRecord a = db.undoSlotRec r := by
  have hkind : UndoKind.ofCode (load db.mem a 1) = (r.encode g).kind := by rw [← hread]; rfl
  have htarget : load db.mem (a + 4) 8 = (r.encode g).target := by rw [← hread]; rfl
  have haux : load db.mem (a + 12) 8 = (r.encode g).aux := by rw [← hread]; rfl
  have hbefore : readBytes db.mem (a + 20) 12 = (r.encode g).before := by rw [← hread]; rfl
  unfold replayRecord undoSlotRec
  cases r with
  | alloc i crc =>
      have hi : i < g.n := hr
      simp only [SlotRec.encode] at hkind htarget
      simp only [hkind, htarget, efOffsetToSlotId_ptr h.toBound hi]
  | free i nx st =>
      obtain ⟨hi, hnx, hst⟩ := hr
      simp only [SlotRec.encode] at hkind htarget haux hbefore
      have hload : load db.mem (a + 20) 8 = nx := by
        exact load_of_readBytes_of_lt [] hnx (by simpa using hbefore)
      simp only [hkind, htarget, haux, hload, efOffsetToSlotId_ptr h.toBound hi, Nat.mod_eq_of_lt hst]
  | status i st crc =>
      obtain ⟨hi, hst, hcrc⟩ := hr
      simp only [SlotRec.encode] at hkind htarget hbefore
      have hload : load db.mem (a + 20) 4 = st := by
        exact load_of_readBytes_of_lt [] hst (by simpa using hbefore)
      have hload' : load db.mem (a + 20 + 4) 4 = crc := by
        have hl := load_of_readBytes_of_lt (leBytes 4 st) hcrc hbefore
        rwa [length_leBytes] at hl
      simp only [hkind, htarget, hload, hload', efOffsetToSlotId_ptr h.toBound hi]
  | next i nx =>
      obtain ⟨hi, hnx⟩ := hr
      simp only [SlotRec.encode] at hkind htarget hbefore
      have hload : load db.mem (a + 20) 8 = nx := by
        exact load_of_readBytes_of_lt [] hnx (by simpa using hbefore)
      simp only [hkind, htarget, hload, efOffsetToSlotId_ptr h.toBound hi]
  | payload i first8 =>
      obtain ⟨hi, hlen⟩ := hr
      simp only [SlotRec.encode] at hkind htarget hbefore
      have hread8 : readBytes db.mem (a + 20) 8 = first8 := by
        rw [← readBytes_take _ _ 12 8 (by norm_num), hbefore, List.take_append_of_le_length (by omega),
          List.take_of_length_le (by omega)]
      simp only [hkind, htarget, hread8, efOffsetToSlotId_ptr h.toBound hi]
  | freeCount delta =>
      simp only [SlotRec.encode] at hkind haux
      have hdelta : wordInt64 (int64Word delta % u64) = delta := by
        rcases hr with rfl | rfl <;> decide
      simp only [hkind, haux, hdelta]

/-- Undoing the record `r` leads from the handle `x` to `y`, wherever the record stands, and leaves
the log as it is. -/
structure UndoesTo (g : Geometry) (r : UndoRec) (x y : Db) : Prop where
  replay : ∀ a, UndoRec.read x.mem a = r → x.replayRecord a = (.ok, y)
  ok : (y.view g).Ok g
  seg : (y.view g).seg = (x.view g).seg

/-- A slot record is undone by its inverse action. -/
lemma undoes_slotRec (h : (db.view g).Ok g) {r : SlotRec} (hr : r.Valid g) :
    ∃ y, UndoesTo g (r.encode g) db y ∧ y.view g = View.undo g r (db.view g) ∧
      Frame db y := by
  obtain ⟨y, hundo, hview⟩ := undoSlotRec_spec h hr
  have hframe := frame_undoSlotRec db r
  rw [hundo] at hframe
  refine ⟨y, ⟨fun a hread => (replayRecord_encode h hr hread).trans hundo, ?_, ?_⟩, hview, hframe⟩
  · rw [hview]
    exact View.undo_ok h
  · rw [hview, View.undo_seg]

/-- The replay loop over the records of the log, from the last to the first. -/
lemma replayLoop_of_undone {rs : List UndoRec} {x y : Db} (fuel : ℕ) (hfuel : rs.length ≤ fuel)
    (hlog : (x.view g).seg.log rs.length = rs) (hundone : Undone (UndoesTo g) rs x y) :
    replayLoop g.undoBase fuel (32 + 32 * rs.length) x = (.ok, y) := by
  induction rs using List.reverseRecOn generalizing fuel x with
  | nil =>
      have hxy : x = y := hundone
      subst hxy
      cases fuel <;> simp [replayLoop]
  | append_singleton rs r ih =>
      obtain ⟨fuel, rfl⟩ : ∃ k, fuel = k + 1 := ⟨fuel - 1, by simp at hfuel; omega⟩
      obtain ⟨m, hlast, hrest⟩ := undone_append.mp hundone
      have hr : UndoesTo g r x m := undone_singleton.mp hlast
      have hlog' : (x.view g).seg.log rs.length = rs ∧
          UndoRec.read (x.view g).seg.bytes (32 + 32 * rs.length) = r := by
        simp only [Segment.log, List.length_append, List.length_singleton, List.range_succ,
          List.map_append, List.map_singleton] at hlog
        obtain ⟨h1, h2⟩ := List.append_inj' hlog rfl
        exact ⟨h1, by simpa using h2⟩
      have hread : UndoRec.read x.mem (g.undoBase + (32 + 32 * rs.length)) = r := by
        rw [← UndoRec.read_segment]
        exact hlog'.2
      have hpos : 32 + 32 * (rs ++ [r]).length - 32 = 32 + 32 * rs.length := by
        simp only [List.length_append, List.length_singleton]
        omega
      rw [replayLoop, if_neg (by simp), hpos, hr.replay _ hread]
      exact ih fuel (by simp at hfuel; omega) (by rw [hr.seg]; exact hlog'.1) hrest

/-- **Replay.** When the records of the log can be undone, the last one first, the replay does
it. -/
theorem efUndoReplayReverse_of_undone (h : (db.view g).Ok g) {rs : List UndoRec} {y : Db}
    (hlog : (db.view g).seg.Holds rs) (hundone : Undone (UndoesTo g) rs db y) :
    db.efUndoReplayReverse = (.ok, y) := by
  have hbase : db.undoLogBase = g.undoBase := h.undoBase
  have hne : g.undoBase ≠ 0 := by
    have := g.base_ge
    unfold Geometry.undoBase
    omega
  have hbytes : (db.view g).seg.bytes = g.segment db.mem := rfl
  have hheader := hlog.header
  unfold efUndoReplayReverse efUndoHeaderPtr
  rw [hbase, if_neg hne]
  unfold Segment.Header at hheader
  simp only [hbytes, load_segment, Nat.add_zero] at hheader ⊢
  split_ifs at hheader with hk
  · rw [List.length_eq_zero_iff] at hk
    subst hk
    have hxy : db = y := hundone
    rw [if_pos hheader, hxy]
  · obtain ⟨hmagic, htail⟩ := hheader
    rw [hmagic, if_neg (by decide), htail]
    exact replayLoop_of_undone _ (by omega) hlog.log hundone

/-- A log of slot records can be undone, by their inverse actions on the view. -/
lemma undone_slotRecs (rs : List SlotRec) (hrs : ∀ r ∈ rs, r.Valid g) (h : (db.view g).Ok g) :
    ∃ y, Undone (UndoesTo g) (rs.map (SlotRec.encode g)) db y ∧
      y.view g = rs.foldr (View.undo g) (db.view g) ∧ Frame db y := by
  induction rs with
  | nil => exact ⟨db, rfl, rfl, Frame.refl db⟩
  | cons r rs ih =>
      obtain ⟨m, hm, hview, hframe⟩ := ih fun r' hr' => hrs r' (List.mem_cons_of_mem r hr')
      have hok : (m.view g).Ok g := hm.preserves (P := fun d => (d.view g).Ok g)
        (fun _ _ _ hu _ => hu.ok) h
      obtain ⟨y, hy, hyview, hyframe⟩ := undoes_slotRec hok (hrs r List.mem_cons_self)
      exact ⟨y, ⟨m, hm, hy⟩, by rw [hyview, hview, List.foldr_cons], hframe.trans hyframe⟩

end Db

end Endfields.Model
