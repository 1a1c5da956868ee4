import Endfields.Spec.Txn

/-!
# Allocation on the view

* **Allocation** (`efAllocSlotEx_spec`): `ef_alloc_slot_ex` takes the head of the free list and
  leaves two undo records inside a transaction, or fails and leaves the view as it is.
* `Db.Layout`: the layout of a handle as an open leaves it, in the words of the handle; it gives the
  geometry the view is read with (`Layout.ok`).
-/

namespace Endfields.Model

open Endfields.Lib

/-! ### The layout of an opened handle -/

/-- A writable handle on a v5 image whose three derived sizes agree with the superblock: the undo
segment starts where the slots end, and the image ends where the undo segment does.
Source: `endfields.c`, `ef_db_bind_slots_layout`, `ef_validate_superblock` -/
structure Db.Layout (db : Db) : Prop where
  schema : db.sb.schemaVersion = schemaVersion
  writable : db.readonly = false
  undoBase : db.undoLogBase = db.slotsBase + 64 * db.sb.maxSlots
  undoSlots : db.undoLogSlots = undoLogDefaultSlots
  size : db.fileSize = db.undoLogBase + undoLogBytes undoLogDefaultSlots
  bound : db.fileSize < u64

namespace Db.Layout

variable {db : Db}

instance : Decidable db.Layout :=
  decidable_of_iff
    (db.sb.schemaVersion = schemaVersion ∧ db.readonly = false ∧
      db.undoLogBase = db.slotsBase + 64 * db.sb.maxSlots ∧
      db.undoLogSlots = undoLogDefaultSlots ∧
      db.fileSize = db.undoLogBase + undoLogBytes undoLogDefaultSlots ∧ db.fileSize < u64)
    ⟨fun ⟨h₁, h₂, h₃, h₄, h₅, h₆⟩ => ⟨h₁, h₂, h₃, h₄, h₅, h₆⟩,
      fun ⟨h₁, h₂, h₃, h₄, h₅, h₆⟩ => ⟨h₁, h₂, h₃, h₄, h₅, h₆⟩⟩

/-- The geometry of the handle. -/
def geometry (h : db.Layout) : Geometry where
  cap := db.hashCapacity
  n := db.sb.maxSlots
  fits := by
    have hb := h.bound
    rw [h.size, h.undoBase, db.slotsBase_eq] at hb
    omega

lemma size_eq (h : db.Layout) : db.fileSize = h.geometry.size := by
  rw [h.size, h.undoBase, db.slotsBase_eq]
  simp only [geometry, Geometry.size, Geometry.undoBase, Geometry.base]
  omega

lemma ok (h : db.Layout) : (db.view h.geometry).Ok h.geometry where
  cap := rfl
  inFile := by
    show _ ≤ db.fileSize
    rw [h.size_eq, Geometry.size_eq]
    omega
  undoBase := by
    show db.undoLogBase = _
    rw [h.undoBase, db.slotsBase_eq]
    simp only [geometry, Geometry.undoBase, Geometry.base]
    omega
  undoSlots := h.undoSlots
  size := h.size_eq
  writable := h.writable
  maxSlots := rfl
  schema := h.schema

end Db.Layout

namespace Superblock

/-- Clearing a clear lock changes nothing. -/
lemma setIndexWriteLock_zero {sb : Superblock} (h : sb.indexWriteLock = 0) :
    sb.setIndexWriteLock 0 = sb := by
  cases sb
  simp only [setIndexWriteLock] at *
  rw [h]

@[simp] lemma slotCrc_setIndexWriteLock (sb : Superblock) (v : ℕ) :
    (sb.setIndexWriteLock v).slotCrc = sb.slotCrc := rfl

end Superblock

namespace Db

variable {g : Geometry} {db : Db} {i : ℕ}

/-! ### The index write lock -/

/-- Taking the index write lock sets its byte, or fails and changes nothing. -/
lemma efSbIndexWriteLockAcquire_spec (hs : (db.view g).sb.schemaVersion = schemaVersion) :
    (db.efSbIndexWriteLockAcquire.1 ≠ .ok ∧
        db.efSbIndexWriteLockAcquire.2.view g = (db.view g).tick ∧
        ((db.view g).sb.indexWriteLock = 0 → db.env.contention ≠ [])) ∨
      ((db.view g).sb.indexWriteLock = 0 ∧ db.efSbIndexWriteLockAcquire.1 = .ok ∧
        db.efSbIndexWriteLockAcquire.2.view g =
          (db.view g).tick.setSb ((db.view g).sb.setIndexWriteLock 1)) := by
  have hschema : db.sb.schemaVersion = schemaVersion := hs
  have hview : db.contended.2.view g = (db.view g).tick := view_contended
  have hsb : db.contended.2.sb = (db.view g).sb := congrArg View.sb hview
  unfold efSbIndexWriteLockAcquire
  rw [hschema, if_neg (by decide)]
  simp only [hsb]
  split_ifs with hbusy
  · refine .inl ⟨fun h0 => (by cases h0), hview, ?_⟩
    intro hlock hc
    rcases hbusy with hb | hb
    · unfold contended at hb
      rw [hc] at hb
      cases hb
    · exact hb hlock
  · refine .inr ⟨?_, rfl, ?_⟩
    · tauto
    · rw [view_setIndexWriteLock, hview]
      rfl

lemma efSbIndexWriteLockRelease_view (hs : (db.view g).sb.schemaVersion = schemaVersion) :
    db.efSbIndexWriteLockRelease.view g =
      (db.view g).setSb ((db.view g).sb.setIndexWriteLock 0) := by
  have hschema : db.sb.schemaVersion = schemaVersion := hs
  unfold efSbIndexWriteLockRelease
  rw [hschema, if_neg (by decide), view_setIndexWriteLock]

/-- Without contention a lock attempt is decided by the lock byte. -/
lemma contended_of_quiet (hq : db.env.contention = []) : db.contended = (false, db) := by
  unfold contended
  rw [hq]

/-! ### Allocation -/

/-- The two records of an allocation: the slot and the free count. -/
def allocRecs (g : Geometry) (i crc : ℕ) : List UndoRec :=
  [SlotRec.encode g (.alloc i crc), SlotRec.encode g (.freeCount (-1))]

/-- Recording an allocation writes in the undo segment alone; inside a transaction it adds two
records, if there is room. -/
lemma recordAlloc_spec (h : (db.view g).Ok g) (hi : i < g.n) :
    ∃ seg, (db.recordAlloc i).view g = (db.view g).setSeg seg ∧
      ((db.view g).core.txnActive = true → ∀ us : List UndoRec, (db.view g).seg.Holds us →
        us.length + 2 ≤ undoLogDefaultSlots →
          seg.Holds (us ++ allocRecs g i ((db.view g).slots i).headerCrc)) := by
  have hslot : (db.setError .ok).slotAt (g.ptr i) = (db.view g).slots i := slotAt_eq db hi
  have hok₀ : ((db.setError .ok).view g).Ok g := h
  unfold recordAlloc
  rw [efPeekSlot_of_lt h.toBound hi]
  simp only [hslot]
  generalize hdb₁ : ((db.setError .ok).efTxnRecordSlotAlloc i statusFree
    ((db.view g).slots i).headerCrc).2 = db₁
  obtain ⟨seg₁, hview₁⟩ : ∃ seg, db₁.view g = (db.view g).setSeg seg := by
    rw [← hdb₁]
    exact efUndoRecordAppend_view hok₀ _ _ _ _
  have hok₁ : (db₁.view g).Ok g := by
    rw [hview₁, View.ok_setSeg]
    exact h
  obtain ⟨seg₂, hview₂⟩ : ∃ seg, (db₁.efTxnRecordFreeCount (-1)).2.view g = (db₁.view g).setSeg seg :=
    efUndoRecordAppend_view hok₁ _ _ _ _
  refine ⟨seg₂, ?_, fun hact us hlog hroom => ?_⟩
  · rw [hview₂, hview₁]
    rfl
  obtain ⟨seg₃, hview₃, hlog₃⟩ := efTxnRecordSlotAlloc_spec ((db.view g).slots i).headerCrc hok₀
    hact hlog (by omega) hi
  rw [hdb₁] at hview₃
  obtain ⟨seg₄, hview₄, hlog₄⟩ := efTxnRecordFreeCount_spec (-1) hok₁
    (by rw [hview₁]; exact hact) (by rw [hview₃]; exact hlog₃)
    (by simp only [List.length_append, List.length_singleton]; omega)
  have hseg : seg₂ = seg₄ := congrArg View.seg (hview₂.symm.trans hview₄)
  rw [hseg]
  unfold allocRecs
  simpa using hlog₄

/-- The view as an allocation of slot `i` leaves it, the log aside. -/
lemma popSlot_locked (v : View) (clear : Bool) (i : ℕ) (hlock : v.sb.indexWriteLock = 0) :
    let w := (v.setSb (v.sb.setIndexWriteLock 1)).popSlot clear i
    w.setSb (w.sb.setIndexWriteLock 0) = v.popSlot clear i := by
  have hsb := Superblock.setIndexWriteLock_zero hlock
  show (v.setSb ((((v.sb.setIndexWriteLock 0).setFreeListHead _).setFreeCount _))).setSlot i _ = _
  rw [hsb]
  rfl

/-- **Allocation.** `ef_alloc_slot_ex` takes the slot at the head of the free list, or fails and
changes nothing. Inside a transaction it leaves two records, if there is room for them. -/
theorem efAllocSlotEx_cases (h : (db.view g).Ok g) (clear : Bool) :
    let r := db.efAllocSlotEx clear
    (r.1 ≠ .ok ∧ r.2.2.view g = (db.view g).tick ∧
        ((db.view g).sb.indexWriteLock = 0 → db.env.contention = [] →
          (db.view g).freeHead g = none)) ∨
      ∃ i seg, (db.view g).freeHead g = some i ∧ (db.view g).sb.indexWriteLock = 0 ∧
        r.1 = .ok ∧ r.2.1 = i ∧ r.2.2.view g = ((db.view g).tick.popSlot clear i).setSeg seg ∧
        (db.txnActive = false → seg = (db.view g).seg) ∧
        (db.txnActive = true → ∀ us : List UndoRec, (db.view g).seg.Holds us →
          us.length + 2 ≤ undoLogDefaultSlots →
            seg.Holds (us ++ allocRecs g i ((db.view g).allocated clear i).headerCrc)) := by
  have hw := efDbRequireWrite_eq h.writable
  have hschema : db.sb.schemaVersion = schemaVersion := h.schema
  unfold efAllocSlotEx
  simp only [hw, hschema, le_refl, decide_true, if_true]
  rcases efSbIndexWriteLockAcquire_spec h.schema with ⟨herr, hview, hquiet⟩ | ⟨hlock, herr, hview⟩
  · left
    rcases hr : db.efSbIndexWriteLockAcquire with ⟨e, db₁⟩
    rw [hr] at herr hview
    simp only at herr hview
    cases e <;> first | exact absurd rfl herr | skip
    all_goals exact ⟨herr, hview, fun hl hc => absurd hc (hquiet hl)⟩
  · rcases hr : db.efSbIndexWriteLockAcquire with ⟨e, db₁⟩
    rw [hr] at herr hview
    simp only at herr hview
    subst herr
    simp only
    have hok₁ : (db₁.view g).Ok g := by
      rw [hview]
      exact (View.ok_tick.mpr h).congr rfl rfl rfl
    have hhead : (db₁.view g).freeHead g = (db.view g).freeHead g := by
      rw [hview]
      rfl
    rcases hfh : (db.view g).freeHead g with _ | i
    · -- nothing to take: the lock byte goes back to what it was
      left
      obtain ⟨hpop, hpview⟩ := efFreeListPopAtomic_of_none hok₁.toBound clear (hhead.trans hfh)
      rcases hp : db₁.efFreeListPopAtomic clear with ⟨e, j, db₂⟩
      rw [hp] at hpop hpview
      simp only at hpop hpview
      have hok₂ : (db₂.view g).Ok g := by rwa [hpview]
      simp only [hpop, false_and, if_false]
      refine ⟨hpop, ?_, fun _ _ => trivial⟩
      rw [efSbIndexWriteLockRelease_view hok₂.schema, hpview, hview]
      show (db.view g).tick.setSb ((db.view g).sb.setIndexWriteLock 0) = _
      rw [Superblock.setIndexWriteLock_zero hlock]
      rfl
    · right
      obtain ⟨db₂, hp, hpview⟩ := efFreeListPopAtomic_of_some hok₁.toBound hok₁.schema clear
          (hhead.trans hfh)
      have hi : i < g.n := View.freeHead_lt hfh
      have hok₂ : (db₂.view g).Ok g := by
        rw [hpview]
        exact hok₁.congr rfl rfl rfl
      have hactive : db₂.txnActive = db.txnActive := by
        have hc : (db₂.view g).core = (db.view g).tick.core := by rw [hpview, hview]; rfl
        exact congrArg Core.txnActive hc
      simp only [hp, true_and, hactive]
      by_cases hact : db.txnActive = true
      · obtain ⟨seg, hrec, hholds⟩ := recordAlloc_spec hok₂ hi
        have hok₃ : ((db₂.recordAlloc i).view g).Ok g := by rwa [hrec, View.ok_setSeg]
        have hcrc : ((db₂.view g).slots i).headerCrc =
            ((db.view g).allocated clear i).headerCrc := by
          rw [hpview, hview]
          simp [View.popSlot, View.allocated]
        rw [if_pos hact]
        refine ⟨i, seg, rfl, hlock, rfl, ?_, fun hin => absurd hin (by simp [hact]), ?_⟩
        · rw [efSbIndexWriteLockRelease_view hok₃.schema, hrec, hpview, hview]
          exact congrArg (View.setSeg · seg) (popSlot_locked (db.view g).tick clear i hlock)
        · intro _ us hlog hroom
          rw [← hcrc]
          refine hholds (hactive.trans hact) us ?_ hroom
          rw [hpview, hview]
          exact hlog
      · rw [if_neg hact]
        refine ⟨i, (db.view g).seg, rfl, hlock, rfl, ?_, fun _ => rfl,
          fun hact' => absurd hact' hact⟩
        rw [efSbIndexWriteLockRelease_view hok₂.schema, hpview, hview]
        exact popSlot_locked (db.view g).tick clear i hlock

/-- Allocation, on a log whose records are known. -/
theorem efAllocSlotEx_holds (h : (db.view g).Ok g) (clear : Bool) {us : List UndoRec}
    (hlog : (db.view g).seg.Holds us) :
    let r := db.efAllocSlotEx clear
    (r.1 ≠ .ok ∧ r.2.2.view g = (db.view g).tick ∧
        ((db.view g).sb.indexWriteLock = 0 → db.env.contention = [] →
          (db.view g).freeHead g = none)) ∨
      ∃ i, (db.view g).freeHead g = some i ∧ (db.view g).sb.indexWriteLock = 0 ∧
        r.1 = .ok ∧ r.2.1 = i ∧
        (db.txnActive = false → r.2.2.view g = (db.view g).tick.popSlot clear i) ∧
        (db.txnActive = true → us.length + 2 ≤ undoLogDefaultSlots →
          ∃ seg, r.2.2.view g = ((db.view g).tick.popSlot clear i).setSeg seg ∧
            seg.Holds (us ++ allocRecs g i ((db.view g).allocated clear i).headerCrc)) := by
  rcases efAllocSlotEx_cases h clear with
    hfail | ⟨i, seg, hhead, hlock, hok, hid, hview, hout, hin⟩
  · exact .inl hfail
  refine .inr ⟨i, hhead, hlock, hok, hid, fun hin' => ?_, fun hact hroom =>
    ⟨seg, hview, hin hact us hlog hroom⟩⟩
  rw [hview, hout hin']
  rfl

/-- Allocation, on a log of slot records. -/
theorem efAllocSlotEx_spec (h : (db.view g).Ok g) (clear : Bool) {rs : List SlotRec}
    (hlog : (db.view g).LogIs g rs) :
    let r := db.efAllocSlotEx clear
    (r.1 ≠ .ok ∧ r.2.2.view g = (db.view g).tick ∧
        ((db.view g).sb.indexWriteLock = 0 → db.env.contention = [] →
          (db.view g).freeHead g = none)) ∨
      ∃ i, (db.view g).freeHead g = some i ∧ (db.view g).sb.indexWriteLock = 0 ∧
        r.1 = .ok ∧ r.2.1 = i ∧
        (db.txnActive = false → r.2.2.view g = (db.view g).tick.popSlot clear i) ∧
        (db.txnActive = true → rs.length + 2 ≤ undoLogDefaultSlots →
          ∃ seg, r.2.2.view g = ((db.view g).tick.popSlot clear i).setSeg seg ∧
            (r.2.2.view g).LogIs g (rs ++
              [.alloc i ((db.view g).allocated clear i).headerCrc, .freeCount (-1)])) := by
  rcases efAllocSlotEx_holds h clear hlog.holds with hfail | ⟨i, hhead, hlock, hok, hid, hout, hin⟩
  · exact .inl hfail
  refine .inr ⟨i, hhead, hlock, hok, hid, hout, fun hact hroom => ?_⟩
  obtain ⟨seg, hview, hholds⟩ := hin hact (by rw [List.length_map]; exact hroom)
  have hvalid : ∀ r ∈ [SlotRec.alloc i ((db.view g).allocated clear i).headerCrc, .freeCount (-1)],
      r.Valid g := by
    intro r hr
    rcases List.mem_pair.mp hr with rfl | rfl
    · exact View.freeHead_lt hhead
    · exact .inr rfl
  refine ⟨seg, hview, ?_⟩
  rw [hview]
  have hlog' := hlog.append hvalid hholds
  exact hlog'.congr rfl

end Db

end Endfields.Model
