import Endfields.Spec.FreeList

/-!
# The index beside the slots

What the index functions do to the rest of the image, and to the table, when they do not relocate
the slot region.

* `Db.index`: the table with its capacity and its entry count; slot and superblock stores do not
  touch it (`index_of_agree`).
* `View.Still v w`: nothing but the environment's answers to lock attempts differs.
* **Removal** (`efIndexRemoveBySlot_spec`): on a handle that does not shrink (`Db.steady`) the
  removal of a slot's entry leaves the view still, and takes at most one entry off.
-/

namespace Endfields.Model

open Endfields.Lib

/-- The hash table of a handle. -/
@[ext] structure Index where
  cap : ℕ
  count : ℕ
  entries : ℕ → HashEntry

/-- The table as the handle has it. -/
def Db.index (db : Db) : Index where
  cap := db.hashCapacity
  count := db.hashEntryCount
  entries := fun b => if b < db.hashCapacity then db.entry b else ⟨0, 0⟩

/-- Replace bucket `b`. -/
@[simps] def Index.set (ix : Index) (b : ℕ) (e : HashEntry) : Index :=
  { ix with entries := Function.update ix.entries b e }

/-- Some bucket maps a key to the slot offset. -/
def Index.maps (ix : Index) (slotOffset : ℕ) : Prop :=
  ∃ b, b < ix.cap ∧ (ix.entries b).slotOffset = slotOffset

instance (ix : Index) (slotOffset : ℕ) : Decidable (ix.maps slotOffset) :=
  inferInstanceAs (Decidable (∃ b, b < ix.cap ∧ (ix.entries b).slotOffset = slotOffset))

/-- Every slot offset of the table is one of the other table, or that of an empty bucket. -/
def Index.Sub (ix ix' : Index) : Prop :=
  ∀ b, b < ix.cap → (ix.entries b).slotOffset = 0 ∨ ix'.maps (ix.entries b).slotOffset

namespace View

/-- Nothing but the environment's answers to lock attempts differs, and without contention nothing
does. -/
structure Still (v w : View) : Prop where
  sb : w.sb = v.sb
  slots : w.slots = v.slots
  seg : w.seg = v.seg
  core : w.core = { v.core with contention := w.core.contention }
  quiet : v.core.contention = [] → w.core.contention = []

variable {u v w : View}

/-- Nothing happened. -/
lemma Still.refl (v : View) : Still v v := ⟨rfl, rfl, rfl, rfl, id⟩

/-- Both stay still, one after the other. -/
lemma Still.trans (h : Still u v) (h' : Still v w) : Still u w where
  sb := h'.sb.trans h.sb
  slots := h'.slots.trans h.slots
  seg := h'.seg.trans h.seg
  core := by rw [h'.core, h.core]
  quiet hq := h'.quiet (h.quiet hq)

/-- A lock attempt leaves the view still. -/
lemma Still.tick (v : View) : Still v v.tick := ⟨rfl, rfl, rfl, rfl, fun h => by simp [View.tick, h]⟩

/-- A still view keeps its geometry. -/
lemma Still.bound {g : Geometry} (h : Still v w) (hb : v.Bound g) : w.Bound g :=
  hb.congr (by rw [h.core]) (by rw [h.core]) (by rw [h.core]) (by rw [h.sb])

/-- A still view keeps its layout. -/
lemma Still.ok {g : Geometry} (h : Still v w) (hb : v.Ok g) : w.Ok g :=
  ⟨h.bound hb.toBound, (congrArg Core.undoLogBase h.core).trans hb.undoBase,
    (congrArg Core.undoLogSlots h.core).trans hb.undoSlots,
    (congrArg Core.fileSize h.core).trans hb.size,
    (congrArg Superblock.schemaVersion h.sb).trans hb.schema⟩

/-- A change of the superblock is made on both sides alike. -/
lemma Still.setSb (h : Still v w) (sb : Superblock) : Still (v.setSb sb) (w.setSb sb) :=
  ⟨rfl, h.slots, h.seg, h.core, h.quiet⟩

/-- The same slot is written in both. -/
lemma Still.setSlot (h : Still v w) (i : ℕ) (s : Slot) : Still (v.setSlot i s) (w.setSlot i s) :=
  ⟨h.sb, by show Function.update _ _ _ = Function.update _ _ _; rw [h.slots], h.seg, h.core,
    h.quiet⟩

/-- The same slot is given back in both. -/
lemma Still.pushSlot (h : Still v w) (g : Geometry) (i : ℕ) :
    Still (v.pushSlot g i) (w.pushSlot g i) := by
  unfold View.pushSlot released
  rw [h.sb]
  exact (h.setSb _).setSlot i _

/-- Without contention the view is the same. -/
lemma Still.eq (h : Still v w) (hq : v.core.contention = []) : w = v := by
  refine View.ext ?_ h.sb h.slots h.seg
  rw [h.core, h.quiet hq, ← hq]

end View

namespace Db

variable {g : Geometry} {db : Db} {b i : ℕ} {e : HashEntry}

/-! ### Stores and the table -/

/-- The table depends on its own bytes only. -/
lemma index_of_agree {m : Mem} (h : ∀ x, 64 ≤ x → x < db.slotsBase → m x = db.mem x) :
    (db.withMem m).index = db.index := by
  refine Index.ext rfl rfl ?_
  funext b
  show (if b < db.hashCapacity then _ else _) = if b < db.hashCapacity then _ else _
  split_ifs with hb
  · have hbase := db.slotsBase_eq
    exact HashEntry.read_congr fun x hx hx' => h x (by omega) (by omega)
  · rfl

/-- A store in the superblock leaves the table alone. -/
lemma index_store_low {a w v : ℕ} (h : a + w ≤ 64) : (db.store a w v).index = db.index :=
  index_of_agree fun x hx _ => store_apply_of_outside (by omega)

/-- A store behind the table leaves it alone. -/
lemma index_store_high {a w v : ℕ} (h : db.slotsBase ≤ a) : (db.store a w v).index = db.index :=
  index_of_agree fun x _ hx => store_apply_of_outside (by omega)

/-- Cleared bytes behind the table leave it alone. -/
lemma index_zero_high {a n : ℕ} (h : db.slotsBase ≤ a) : (db.zero a n).index = db.index :=
  index_of_agree fun x _ hx => memset_apply_of_outside (by omega)

/-- A call that leaves the buckets leaves the table. -/
lemma Frame.index {db' : Db} (h : Frame db db') (ha : db.Apart) : db'.index = db.index := by
  refine Index.ext h.hashCapacity h.hashEntryCount ?_
  funext b
  show (if b < db'.hashCapacity then _ else _) = if b < db.hashCapacity then _ else _
  rw [h.hashCapacity]
  split_ifs with hb
  · have hbase := db.slotsBase_eq
    exact HashEntry.read_congr fun x hx hx' => h.table ha x (by omega) (by omega)
  · rfl

/-- An append leaves the superblock and the environment. -/
lemma sb_efUndoRecordAppend (ha : db.Apart) (kind : UndoKind) (target aux : ℕ) (before : List UInt8) :
    (db.efUndoRecordAppend kind target aux before).2.sb = db.sb ∧
      (db.efUndoRecordAppend kind target aux before).2.env = db.env := by
  rcases db.efUndoRecordAppend_cases kind target aux before with
    heq | heq | ⟨hact, hbase, m, tail, count, hm, heq⟩
  · rw [heq]
    exact ⟨rfl, rfl⟩
  · rw [heq]
    exact ⟨rfl, rfl⟩
  · rw [heq]
    refine ⟨Superblock.read_congr fun x hx => hm x ?_, rfl⟩
    have hge := db.slotsBase_ge
    have hap := (ha hact).resolve_left hbase
    omega

/-- The last error is not in the table. -/
@[simp] lemma index_setError (err : Err) : (db.setError err).index = db.index := rfl

/-- The mark of a changed superblock is not in the table.
Source: `endfields.c`, `ef_db_mark_meta_dirty` -/
@[simp] lemma index_efDbMarkMetaDirty : db.efDbMarkMetaDirty.index = db.index := rfl

/-- A bucket write does not show in the view. -/
lemma view_setEntry (hb : b < g.cap) : (db.setEntry b e).view g = db.view g := by
  have hbase : 64 + 16 * b + 16 ≤ g.base := by
    unfold Geometry.base
    omega
  have hout : ∀ x, x < 64 ∨ g.base ≤ x → (db.setEntry b e).mem x = db.mem x := by
    intro x hx
    refine (store_apply_of_outside (by omega)).trans (store_apply_of_outside (by omega))
  have hub : g.base ≤ g.undoBase := by
    unfold Geometry.undoBase
    omega
  show (db.withMem (db.setEntry b e).mem).view g = db.view g
  rw [view_withMem, Superblock.read_congr fun x hx => hout x (.inl hx),
    Geometry.slots_of_agree fun x hx _ => hout x (.inr hx),
    Geometry.segment_of_agree fun x hx => hout x (.inr (by omega))]
  rfl

/-- A bucket write replaces the bucket. -/
lemma entry_setEntry (c : ℕ) :
    (db.setEntry b e).entry c =
      if c = b then ⟨e.keyHash % u64, e.slotOffset % u64⟩ else db.entry c := by
  unfold setEntry entry HashEntry.read store
  simp only [mem_withMem, withMem_withMem]
  split_ifs with hcb
  · subst hcb
    rw [load_store_self, load_store_of_disjoint (by omega), load_store_self]
    rfl
  · rw [load_store_of_disjoint (by omega), load_store_of_disjoint (by omega),
      load_store_of_disjoint (by omega), load_store_of_disjoint (by omega)]

/-- A bucket is stored.
Source: `ef_index.c`, `ef_hash_entry_store_atomic` -/
lemma index_setEntry (hb : b < db.hashCapacity) :
    (db.setEntry b e).index = db.index.set b ⟨e.keyHash % u64, e.slotOffset % u64⟩ := by
  refine Index.ext rfl rfl ?_
  funext c
  show (if c < db.hashCapacity then (db.setEntry b e).entry c else _) =
    Function.update db.index.entries b _ c
  rw [entry_setEntry, Function.update_apply]
  by_cases hcb : c = b
  · rw [if_pos hcb, if_pos hcb, if_pos (by omega)]
  · rw [if_neg hcb, if_neg hcb]
    rfl

/-- The entries of the table are its buckets. -/
lemma index_entries (hb : b < db.hashCapacity) : db.index.entries b = db.entry b := if_pos hb

/-- A key hash is a word of 64 bits. -/
lemma entry_keyHash_lt (db : Db) (b : ℕ) : (db.entry b).keyHash < u64 := load_lt db.mem _ 8

/-- A slot offset is a word of 64 bits. -/
lemma entry_slotOffset_lt (db : Db) (b : ℕ) : (db.entry b).slotOffset < u64 := load_lt db.mem _ 8

/-- A bucket moved within the table. -/
lemma index_setEntry_entry (hb : b < db.hashCapacity) (hi : i < db.hashCapacity) :
    (db.setEntry b (db.entry i)).index = db.index.set b (db.index.entries i) := by
  rw [index_setEntry hb, Nat.mod_eq_of_lt (entry_keyHash_lt db i),
    Nat.mod_eq_of_lt (entry_slotOffset_lt db i), index_entries hi]

end Db

namespace Index

variable {ix ix' ix'' : Index} {b : ℕ}

/-- A table is contained in itself. -/
lemma Sub.refl (ix : Index) : ix.Sub ix := fun b hb => .inr ⟨b, hb, rfl⟩

/-- Containment of tables is transitive. -/
lemma Sub.trans (h : ix.Sub ix') (h' : ix'.Sub ix'') : ix.Sub ix'' := by
  intro b hb
  rcases h b hb with h0 | ⟨b', hb', heq⟩
  · exact .inl h0
  · rcases h' b' hb' with h0 | hmaps
    · exact .inl (heq.symm.trans h0)
    · rw [← heq]
      exact .inr hmaps

/-- Moving a bucket over another loses at most an entry. -/
lemma sub_set {i : ℕ} (hi : i < ix.cap) : (ix.set b (ix.entries i)).Sub ix := by
  intro c hc
  show (Function.update ix.entries b (ix.entries i) c).slotOffset = 0 ∨ _
  rw [set_entries, Function.update_apply]
  split_ifs
  · exact .inr ⟨i, hi, rfl⟩
  · exact .inr ⟨c, hc, rfl⟩

/-- A cleared bucket takes an entry off. -/
lemma sub_clear : (ix.set b ⟨0, 0⟩).Sub ix := by
  intro c hc
  rw [set_entries, Function.update_apply]
  split_ifs
  · exact .inl rfl
  · exact .inr ⟨c, hc, rfl⟩

end Index

namespace Db

variable {g : Geometry} {db db' : Db} {pos : ℕ}

/-! ### Removal -/

/-- The shift of a removal moves buckets only. -/
lemma shiftLoop_spec (fuel : ℕ) (hcap : db.hashCapacity = g.cap) (hpos : pos < g.cap)
    (h : shiftLoop fuel pos db = some db') :
    db'.view g = db.view g ∧ db'.hashEntryCount = db.hashEntryCount ∧ db'.index.Sub db.index := by
  induction fuel generalizing pos db with
  | zero => cases h
  | succ fuel ih =>
      have hnext : (pos + 1) % db.hashCapacity < g.cap := by
        rw [hcap]
        exact Nat.mod_lt _ (by omega)
      unfold shiftLoop at h
      simp only at h
      split_ifs at h with hstop
      · cases h
        refine ⟨view_setEntry hpos, rfl, ?_⟩
        rw [index_setEntry (by omega)]
        exact Index.sub_clear
      · have hcap' : (db.setEntry pos (db.entry ((pos + 1) % db.hashCapacity))).hashCapacity = g.cap :=
          hcap
        obtain ⟨hview, hcount, hsub⟩ := ih hcap' hnext h
        refine ⟨hview.trans (view_setEntry hpos), hcount, hsub.trans ?_⟩
        rw [index_setEntry_entry (by omega) (by omega)]
        exact Index.sub_set (show _ < db.hashCapacity by omega)

/-- A key is found in a bucket of the table.
Source: `ef_index.c`, `ef_index_find_entry_unlocked` -/
lemma findLoop_lt {keyHash fuel i : ℕ} (hcap : 0 < db.hashCapacity)
    (h : db.findLoop keyHash fuel i = some pos) : pos < db.hashCapacity := by
  induction fuel generalizing i with
  | zero => cases h
  | succ fuel ih =>
      unfold findLoop at h
      simp only at h
      split_ifs at h with h1 h2
      · cases h
        exact Nat.mod_lt _ hcap
      · exact ih h

/-- A removal by key moves buckets only, and counts at most one entry off. -/
lemma efIndexRemoveByHash_spec (hcap : db.hashCapacity = g.cap) (keyHash : ℕ) :
    let r := db.efIndexRemoveByHash keyHash
    r.2.view g = db.view g ∧ db.hashEntryCount - 1 ≤ r.2.hashEntryCount ∧
      r.2.index.Sub db.index := by
  have hsame : (db.view g = db.view g) ∧ db.hashEntryCount - 1 ≤ db.hashEntryCount ∧
      db.index.Sub db.index := ⟨rfl, Nat.sub_le _ _, Index.Sub.refl _⟩
  unfold efIndexRemoveByHash
  by_cases h0 : db.hashCapacity = 0
  · rw [if_pos h0]
    exact hsame
  rw [if_neg h0]
  rcases hfind : db.findLoop keyHash db.hashCapacity (efHashHome db.hashCapacity keyHash) with
    _ | pos
  · exact hsame
  simp only
  have hpos := findLoop_lt (by omega) hfind
  generalize db.hashCapacity * db.hashCapacity + 1 = fuel
  rcases hshift : shiftLoop fuel pos db with _ | db'
  · exact hsame
  obtain ⟨hview, hcount, hsub⟩ := shiftLoop_spec fuel hcap (by omega) hshift
  refine ⟨hview, ?_, hsub⟩
  show db.hashEntryCount - 1 ≤ db'.hashEntryCount - 1
  rw [hcount]

end Db

/-! ### The write section -/

namespace View

/-- The write lock of the index is taken; before schema v5 there is none. -/
def held (v : View) : View :=
  if v.sb.schemaVersion < schemaVersion then v else v.setSb (v.sb.setIndexWriteLock 1)

/-- The write lock of the index is released. -/
def unheld (v : View) : View :=
  if v.sb.schemaVersion < schemaVersion then v else v.setSb (v.sb.setIndexWriteLock 0)

/-- The lock can be taken. -/
def lockFree (v : View) : Prop := schemaVersion ≤ v.sb.schemaVersion → v.sb.indexWriteLock = 0

variable {g : Geometry} {v : View}

/-- A lock taken and given back. -/
lemma unheld_held (h : v.lockFree) : v.held.unheld = v := by
  unfold held unheld
  by_cases hs : v.sb.schemaVersion < schemaVersion
  · rw [if_pos hs, if_pos hs]
  · rw [if_neg hs, setSb_sb]
    have hs' : ¬ (v.sb.setIndexWriteLock 1).schemaVersion < schemaVersion := hs
    rw [if_neg hs', setSb_setSb]
    have hsb := Superblock.setIndexWriteLock_zero (h (by omega))
    show v.setSb (v.sb.setIndexWriteLock 0) = v
    rw [hsb, setSb_self]

/-- The lock is not in the core. -/
lemma held_core : v.held.core = v.core := by
  unfold held
  split_ifs <;> rfl

/-- The lock leaves the slots alone. -/
lemma held_slots : v.held.slots = v.slots := by
  unfold held
  split_ifs <;> rfl

/-- The lock leaves the slot count alone. -/
@[simp] lemma held_maxSlots : v.held.sb.maxSlots = v.sb.maxSlots := by
  unfold held
  split_ifs <;> rfl

/-- The lock leaves the schema alone. -/
@[simp] lemma held_schemaVersion : v.held.sb.schemaVersion = v.sb.schemaVersion := by
  unfold held
  split_ifs <;> rfl

/-- The geometry does not depend on the lock. -/
lemma bound_held : v.held.Bound g ↔ v.Bound g := by
  unfold held
  split_ifs
  · rfl
  · exact ⟨fun h => h.congr rfl rfl rfl rfl, fun h => h.congr rfl rfl rfl rfl⟩

end View

namespace Db

variable {g : Geometry} {db : Db} {i : ℕ}

/-- Entering the write section takes the lock, or fails and changes nothing. -/
lemma efIndexWriteBegin_spec (g : Geometry) (db : Db) :
    let r := db.efIndexWriteBegin
    r.2.index = db.index ∧
      ((r.1 ≠ .ok ∧ View.Still (db.view g) (r.2.view g) ∧
          ((db.view g).lockFree → db.env.contention ≠ [])) ∨
        (r.1 = .ok ∧ (db.view g).lockFree ∧
          ∃ w, View.Still (db.view g) w ∧ r.2.view g = w.held)) := by
  unfold efIndexWriteBegin
  by_cases hs : db.sb.schemaVersion < schemaVersion
  · rw [if_pos hs]
    refine ⟨rfl, .inr ⟨rfl, fun h5 => ?_, db.view g, View.Still.refl _, ?_⟩⟩
    · exact absurd hs (not_lt.mpr h5)
    · unfold View.held
      rw [if_pos (show (db.view g).sb.schemaVersion < schemaVersion from hs)]
  rw [if_neg hs]
  have hview : db.contended.2.view g = (db.view g).tick := view_contended
  have hsb : db.contended.2.sb = (db.view g).sb := congrArg View.sb hview
  have hindex : db.contended.2.index = db.index := by
    unfold contended
    split <;> rfl
  unfold efSbIndexWriteLockAcquire
  rw [if_neg hs]
  by_cases hbusy : db.contended.1 = true ∨ db.contended.2.sb.indexWriteLock ≠ 0
  · simp only [if_pos hbusy]
    refine ⟨hindex, .inl ⟨fun h0 => (by cases h0), ?_, ?_⟩⟩
    · rw [hview]
      exact View.Still.tick _
    · intro hfree hq
      rcases hbusy with hb | hb
      · rw [contended_of_quiet hq] at hb
        cases hb
      · rw [hsb] at hb
        exact hb (hfree (show schemaVersion ≤ db.sb.schemaVersion by omega))
  · simp only [if_neg hbusy]
    have hlock : (db.view g).sb.indexWriteLock = 0 := by
      rw [not_or, not_not, hsb] at hbusy
      exact hbusy.2
    have hseq : ∀ db' : Db, db'.efSbIndexWriteSeqStep.view g = db'.view g ∧
        db'.efSbIndexWriteSeqStep.index = db'.index := by
      intro db'
      unfold efSbIndexWriteSeqStep
      split_ifs
      · exact ⟨rfl, rfl⟩
      · exact ⟨rfl, rfl⟩
    refine ⟨?_, .inr ⟨trivial, fun _ => hlock, (db.view g).tick, View.Still.tick _, ?_⟩⟩
    · rw [(hseq _).2]
      exact (index_store_low (by norm_num)).trans hindex
    · rw [(hseq _).1, view_setIndexWriteLock, hview]
      unfold View.held
      rw [if_neg (show ¬ (db.view g).tick.sb.schemaVersion < schemaVersion from hs)]

/-- The begin of a section leaves the table alone.
Source: `ef_index.c`, `ef_index_write_begin` -/
lemma index_efIndexWriteBegin (db : Db) : db.efIndexWriteBegin.2.index = db.index :=
  (efIndexWriteBegin_spec ⟨0, 0, by norm_num [u64]⟩ db).1

/-- The write lock of the index cannot be taken. -/
def indexLockBusy (db : Db) : Prop := db.contended.1 = true ∨ db.sb.indexWriteLock ≠ 0

instance (db : Db) : Decidable db.indexLockBusy := inferInstanceAs (Decidable (_ ∨ _))

/-- A lock attempt that the environment answers leaves the superblock alone. -/
lemma sb_contended (db : Db) : db.contended.2.sb = db.sb := by
  unfold contended
  split <;> rfl

/-- The section is entered exactly if its lock, which there is since schema v5, can be taken. -/
lemma efIndexWriteBegin_ok_iff : db.efIndexWriteBegin.1 = .ok ↔
    (schemaVersion ≤ db.sb.schemaVersion → ¬ db.indexLockBusy) := by
  unfold efIndexWriteBegin efSbIndexWriteLockAcquire indexLockBusy
  by_cases hold : db.sb.schemaVersion < schemaVersion
  · rw [if_pos hold]
    exact iff_of_true rfl fun hs => absurd hs (by omega)
  rw [if_neg hold, if_neg hold, forall_prop_of_true (by omega)]
  simp only [sb_contended]
  by_cases hbusy : db.contended.1 = true ∨ db.sb.indexWriteLock ≠ 0
  · rw [if_pos hbusy]
    exact ⟨fun h => (by cases h), fun h => absurd hbusy h⟩
  · rw [if_neg hbusy]
    exact ⟨fun _ => hbusy, fun _ => rfl⟩

/-- On a v5 image the section is entered exactly if the lock is not busy.
Source: `ef_index.c`, `ef_index_write_begin` -/
lemma efIndexWriteBegin_ok_iff_of_v5 (hs : db.sb.schemaVersion = schemaVersion) :
    db.efIndexWriteBegin.1 = .ok ↔ ¬ db.indexLockBusy := by
  rw [efIndexWriteBegin_ok_iff, forall_prop_of_true hs.ge]

/-- Leaving the write section releases the lock. -/
lemma efIndexWriteEnd_spec (g : Geometry) (db : Db) :
    db.efIndexWriteEnd.view g = (db.view g).unheld ∧ db.efIndexWriteEnd.index = db.index := by
  unfold efIndexWriteEnd View.unheld
  by_cases hs : db.sb.schemaVersion < schemaVersion
  · rw [if_pos hs, if_pos (show (db.view g).sb.schemaVersion < schemaVersion from hs)]
    exact ⟨rfl, rfl⟩
  rw [if_neg hs, if_neg (show ¬ (db.view g).sb.schemaVersion < schemaVersion from hs)]
  unfold efSbIndexWriteSeqStep
  rw [if_neg hs]
  unfold efSbIndexWriteLockRelease
  rw [if_neg (show ¬ ({ db with indexSeq := (db.indexSeq + 1) % u32 } : Db).sb.schemaVersion <
    schemaVersion from hs)]
  refine ⟨?_, index_store_low (by norm_num)⟩
  rw [view_setIndexWriteLock]
  rfl

/-- A section that only reads, and is left with another result. -/
lemma section_still {w : View} {db₁ : Db} (hfree : (db.view g).lockFree)
    (hstill : View.Still (db.view g) w) (hview : db₁.view g = w.held) :
    View.Still (db.view g) (db₁.efIndexWriteEnd.view g) := by
  have hw : w.lockFree := by
    unfold View.lockFree
    rw [hstill.sb]
    exact hfree
  rw [(efIndexWriteEnd_spec g db₁).1, hview, View.unheld_held hw]
  exact hstill

/-- The handle `db₁` is `db` with the write lock of the index taken. -/
structure Locked (g : Geometry) (db db₁ : Db) : Prop where
  free : (db.view g).lockFree
  view : ∃ w, View.Still (db.view g) w ∧ db₁.view g = w.held
  index : db₁.index = db.index

/-- The section is refused, and nothing changes, or the lock is held.
Source: `ef_index.c`, `ef_index_write_begin` -/
lemma efIndexWriteBegin_cases (g : Geometry) (db : Db) :
    (db.efIndexWriteBegin.1 ≠ .ok ∧ View.Still (db.view g) (db.efIndexWriteBegin.2.view g) ∧
        db.efIndexWriteBegin.2.index = db.index) ∨
      (db.efIndexWriteBegin.1 = .ok ∧ Locked g db db.efIndexWriteBegin.2) := by
  obtain ⟨hix, ⟨herr, hstill, -⟩ | ⟨hok, hfree, hw⟩⟩ := efIndexWriteBegin_spec g db
  · exact .inl ⟨herr, hstill, hix⟩
  · exact .inr ⟨hok, hfree, hw, hix⟩

/-- Leaving a section in which at most buckets were written. -/
lemma Locked.leave {db₁ db₂ : Db} (hl : Locked g db db₁) (hview : db₂.view g = db₁.view g) :
    View.Still (db.view g) (db₂.efIndexWriteEnd.view g) ∧
      db₂.efIndexWriteEnd.index = db₂.index := by
  obtain ⟨w, hstill, hw⟩ := hl.view
  exact ⟨section_still hl.free hstill (hview.trans hw), (efIndexWriteEnd_spec g db₂).2⟩

/-- Inside the section the handle is the one before, with fewer answers left. -/
lemma Locked.core {db₁ : Db} (hl : Locked g db db₁) :
    db₁.core = { db.core with contention := db₁.core.contention } := by
  obtain ⟨w, hstill, hw⟩ := hl.view
  have hc : db₁.core = w.core := (congrArg View.core hw).trans View.held_core
  rw [hc]
  exact hstill.core

/-- Inside the section the handle is bound to the same geometry. -/
lemma Locked.bound {db₁ : Db} (hl : Locked g db db₁) (h : (db.view g).Bound g) :
    (db₁.view g).Bound g := by
  obtain ⟨w, hstill, hw⟩ := hl.view
  rw [hw, View.bound_held]
  exact hstill.bound h

/-- Inside the section the table has the same capacity. -/
lemma Locked.hashCapacity {db₁ : Db} (hl : Locked g db db₁) : db₁.hashCapacity = db.hashCapacity :=
  congrArg Core.hashCapacity hl.core

/-- A handle that was left still is in its transaction as before. -/
lemma Logging.of_still {db' : Db} {us : List UndoRec} (h : Logging g db us)
    (hst : View.Still (db.view g) (db'.view g)) : Logging g db' us where
  ok := hst.ok h.ok
  active := (congrArg Core.txnActive hst.core).trans h.active
  holds := by
    rw [hst.seg]
    exact h.holds

/-! ### Shrinking -/

/-- The attempt to shrink that follows a removal does not move the slot region: on a file it is
refused, a capacity up to 16 is not shrunk, and neither is a table with an entry for every eight
buckets after `r` removals.
Source: `ef_index.c`, `ef_index_should_shrink_snap`, `ef_index_pick_shrink_capacity`,
`ef_index_rehash_to` -/
def steady (db : Db) (r : ℕ) : Prop :=
  db.backend = .file ∨ db.hashCapacity ≤ 16 ∨
    (0 < db.hashEntryCount - r ∧ db.hashCapacity ≤ 8 * (db.hashEntryCount - r))

instance (db : Db) (r : ℕ) : Decidable (db.steady r) := inferInstanceAs (Decidable (_ ∨ _))

/-- On a file the table is never shrunk. -/
lemma efIndexShrink_of_file (hfile : db.backend = .file) (newCapacity : ℕ) :
    View.Still (db.view g) ((db.efIndexShrink newCapacity).2.view g) ∧
      (db.efIndexShrink newCapacity).2.index = db.index := by
  have hsame : View.Still (db.view g) (db.view g) ∧ db.index = db.index :=
    ⟨View.Still.refl _, rfl⟩
  unfold efIndexShrink
  by_cases h1 : newCapacity = 0
  · rw [if_pos h1]
    exact hsame
  rw [if_neg h1]
  unfold efIndexRehashTo
  by_cases h2 : db.readonly = true
  · rw [if_pos h2]
    exact hsame
  rw [if_neg h2]
  by_cases h3 : newCapacity < 1 ∨ newCapacity &&& (newCapacity - 1) ≠ 0
  · rw [if_pos h3]
    exact hsame
  rw [if_neg h3]
  by_cases h4 : 0xFFFF < newCapacity
  · rw [if_pos h4]
    exact hsame
  rw [if_neg h4]
  obtain ⟨hindex, hbegin⟩ := efIndexWriteBegin_spec g db
  rcases hr : db.efIndexWriteBegin with ⟨e, db₁⟩
  rw [hr] at hindex hbegin
  simp only at hindex hbegin
  rcases hbegin with ⟨herr, hstill, -⟩ | ⟨rfl, hfree, w, hstill, hview⟩
  · cases e <;> first | exact absurd rfl herr | exact ⟨hstill, hindex⟩
  -- inside the section every check leaves it again
  have hend : View.Still (db.view g) (db₁.efIndexWriteEnd.view g) ∧
      db₁.efIndexWriteEnd.index = db.index :=
    ⟨section_still hfree hstill hview, (efIndexWriteEnd_spec g db₁).2.trans hindex⟩
  have hfile₁ : db₁.backend = .file := by
    have hcore : db₁.core = w.held.core := congrArg View.core hview
    rw [View.held_core, hstill.core] at hcore
    exact (congrArg Core.backend hcore).trans hfile
  simp only [true_and]
  by_cases h5 : db₁.hashCapacity = 0
  · rw [if_pos h5]
    exact hend
  rw [if_neg h5]
  by_cases h6 : db₁.hashCapacity ≤ newCapacity
  · rw [if_pos h6]
    exact hend
  rw [if_neg h6, if_neg (by simp)]
  by_cases h7 : newCapacity = db₁.hashCapacity
  · rw [if_pos h7]
    exact hend
  rw [if_neg h7, if_pos hfile₁]
  exact hend

/-- Rounding up does not go below its start. -/
lemma le_roundUpLoop {m : ℕ} (hm : m ≤ 2 ^ 31) (fuel k : ℕ) (hk : 4 ≤ k) (hk' : k ≤ 31) :
    16 ≤ roundUpLoop m fuel (2 ^ k) := by
  have h16 : 16 ≤ 2 ^ k := by
    calc 16 = 2 ^ 4 := by norm_num
      _ ≤ 2 ^ k := Nat.pow_le_pow_right (by norm_num) hk
  induction fuel generalizing k with
  | zero => exact h16
  | succ fuel ih =>
      unfold roundUpLoop
      split_ifs with hlt
      · have hk31 : k < 31 := by
          by_contra hge
          obtain rfl : k = 31 := by omega
          omega
        have hle : 2 ^ (k + 1) ≤ 2 ^ 31 := Nat.pow_le_pow_right (by norm_num) (by omega)
        have hmod : 2 ^ k * 2 % u32 = 2 ^ (k + 1) := by
          rw [← pow_succ]
          exact Nat.mod_eq_of_lt (by simp only [u32]; omega)
        rw [hmod]
        refine ih (k + 1) (by omega) (by omega) ?_
        rw [pow_succ]
        omega
      · exact h16

/-- A capacity up to 16 is not shrunk. -/
lemma efIndexPickShrinkCapacity_of_le (entries : ℕ) {capacity : ℕ} (h : capacity ≤ 16) :
    efIndexPickShrinkCapacity entries capacity = 0 := by
  unfold efIndexPickShrinkCapacity
  by_cases h1 : capacity = 0 ∨ capacity &&& (capacity - 1) ≠ 0
  · rw [if_pos h1]
  rw [if_neg h1, if_neg (by omega)]
  have hx : (entries * 4) % u32 < u32 := Nat.mod_lt _ (by norm_num [u32])
  generalize (entries * 4) % u32 = x at hx ⊢
  have hreq : (if x / 3 * 3 % u32 < x then x / 3 + 1 else x / 3) ≤ 2 ^ 31 := by
    have hle : x / 3 + 1 ≤ 2 ^ 31 := by
      simp only [u32] at hx
      omega
    by_cases hr : x / 3 * 3 % u32 < x
    · rw [if_pos hr]
      exact hle
    · rw [if_neg hr]
      omega
  refine if_pos (h.trans ?_)
  by_cases hpos : 0 < entries
  · rw [if_pos hpos]
    exact le_roundUpLoop hreq 32 4 (by omega) (by omega)
  · rw [if_neg hpos]

/-- A steady handle is left still by the attempt to shrink. -/
lemma shrinkAfterRemove_spec
    (h : db.backend = .file ∨ db.hashCapacity ≤ 16 ∨
      (0 < db.hashEntryCount ∧ db.hashCapacity ≤ 8 * db.hashEntryCount)) :
    let db' := db.shrinkAfterRemove db.hashEntryCount db.hashCapacity
    View.Still (db.view g) (db'.view g) ∧ db'.index = db.index := by
  have hsame : View.Still (db.view g) (db.view g) ∧ db.index = db.index :=
    ⟨View.Still.refl _, rfl⟩
  unfold shrinkAfterRemove
  by_cases hs : db.efIndexShouldShrinkSnap db.hashEntryCount db.hashCapacity = true
  swap
  · rw [if_neg hs]
    exact hsame
  rw [if_pos hs]
  rcases h with hfile | hcap | ⟨hpos, hload⟩
  · exact efIndexShrink_of_file hfile _
  · rw [efIndexPickShrinkCapacity_of_le _ hcap]
    exact hsame
  · unfold efIndexShouldShrinkSnap at hs
    split_ifs at hs
    · omega
    · simp only [decide_eq_true_eq] at hs
      omega

/-- What is steady for more removals is so for fewer. -/
lemma steady.mono {r r' : ℕ} (h : db.steady r) (hr : r' ≤ r) : db.steady r' := by
  rcases h with hfile | hcap | ⟨hpos, hload⟩
  · exact .inl hfile
  · exact .inr (.inl hcap)
  · exact .inr (.inr ⟨by omega, by omega⟩)

/-- Steadiness, with fewer removals to come. -/
lemma steady.congr {db' : Db} {r r' : ℕ} (h : db.steady r) (hbackend : db'.backend = db.backend)
    (hcap : db'.hashCapacity = db.hashCapacity)
    (hcount : db.hashEntryCount - r ≤ db'.hashEntryCount - r') : db'.steady r' := by
  rcases h with hfile | hsmall | ⟨hpos, hload⟩
  · exact .inl (hbackend.trans hfile)
  · exact .inr (.inl (by omega))
  · exact .inr (.inr ⟨by omega, by omega⟩)

/-- Whether the table maps a key to slot `i`, as a number of entries. -/
def mapped (db : Db) (i : ℕ) : ℕ := if db.index.maps (db.efSlotToOffset i) then 1 else 0

/-- The scan for a slot finds a bucket with its offset.
Source: `ef_index.c`, `ef_index_remove_by_slot` -/
lemma findSlotLoop_spec {off n b : ℕ} (h : db.findSlotLoop off n = some b) :
    b < n ∧ (db.entry b).slotOffset = off := by
  unfold findSlotLoop at h
  have hmem := List.mem_of_find?_eq_some h
  have hp := List.find?_some h
  exact ⟨List.mem_range.mp hmem, by simpa using hp⟩

/-- The removals so far: the view is still, and at most `r` entries were taken off. -/
structure Removed (g : Geometry) (db : Db) (r : ℕ) (db' : Db) : Prop where
  still : View.Still (db.view g) (db'.view g)
  sub : db'.index.Sub db.index
  count : db.hashEntryCount - r ≤ db'.hashEntryCount

/-- A removal that finds no entry. -/
lemma Removed.of_index {db' : Db} (hstill : View.Still (db.view g) (db'.view g))
    (hindex : db'.index = db.index) (r : ℕ) : Removed g db r db' where
  still := hstill
  sub := by
    rw [hindex]
    exact Index.Sub.refl _
  count := by
    have hcount : db'.hashEntryCount = db.hashEntryCount := congrArg Index.count hindex
    omega

/-- A removal leaves the backend alone. -/
lemma Removed.backend {db' : Db} {r : ℕ} (h : Removed g db r db') : db'.backend = db.backend :=
  congrArg Core.backend h.still.core

/-- A steady removal leaves the capacity alone. -/
lemma Removed.hashCapacity {db' : Db} {r : ℕ} (h : Removed g db r db') :
    db'.hashCapacity = db.hashCapacity :=
  congrArg Core.hashCapacity h.still.core

/-- The write section is left after `r` removals. -/
lemma removed_writeEnd {w : View} {db₂ : Db} {r : ℕ} (hfree : (db.view g).lockFree)
    (hstill : View.Still (db.view g) w) (hview : db₂.view g = w.held)
    (hsub : db₂.index.Sub db.index) (hcount : db.hashEntryCount - r ≤ db₂.hashEntryCount) :
    Removed g db r db₂.efIndexWriteEnd := by
  obtain ⟨-, hix⟩ := efIndexWriteEnd_spec g db₂
  refine ⟨section_still hfree hstill hview, ?_, ?_⟩
  · rw [hix]
    exact hsub
  · have hc : db₂.efIndexWriteEnd.hashEntryCount = db₂.hashEntryCount := congrArg Index.count hix
    omega

/-- A removal that marks the superblock as changed. -/
lemma Removed.markMetaDirty {db' : Db} {r : ℕ} (h : Removed g db r db') :
    Removed g db r db'.efDbMarkMetaDirty :=
  ⟨h.still, h.sub, h.count⟩

/-- The attempt to shrink after `r` removals, on a handle that is steady through them. -/
lemma Removed.shrink {db₂ : Db} {r entries cap : ℕ} (h : Removed g db r db₂) (hs : db.steady r)
    (hentries : entries = db₂.hashEntryCount) (hcap : cap = db₂.hashCapacity) :
    Removed g db r (db₂.shrinkAfterRemove entries cap) := by
  subst hentries hcap
  have hsteady : db₂.steady 0 := hs.congr h.backend h.hashCapacity h.count
  obtain ⟨hview, hindex⟩ := shrinkAfterRemove_spec (g := g) hsteady
  refine ⟨h.still.trans hview, ?_, ?_⟩
  · rw [hindex]
    exact h.sub
  · exact h.count.trans_eq (congrArg Index.count hindex).symm

/-- The end of a removal: the section is left, and the shrink is attempted. -/
lemma removed_shrinkAfter {db₂ : Db} {r : ℕ} (hs : db.steady r)
    (h : Removed g db r db₂.efIndexWriteEnd) :
    Removed g db r (db₂.efIndexWriteEnd.efDbMarkMetaDirty.shrinkAfterRemove db₂.hashEntryCount
      db₂.hashCapacity) := by
  obtain ⟨-, hix⟩ := efIndexWriteEnd_spec g db₂
  refine h.markMetaDirty.shrink hs ?_ ?_
  · exact (congrArg Index.count hix).symm
  · exact (congrArg Index.cap hix).symm

/-- Once the section is entered, the removal of a slot's entry succeeds, found or not. -/
lemma efIndexRemoveBySlot_fst (hw : db.readonly = false) (i : ℕ) :
    (db.efIndexRemoveBySlot i).1 = db.efIndexWriteBegin.1 ∧
      (db.efIndexWriteBegin.1 ≠ .ok → (db.efIndexRemoveBySlot i).2 = db.efIndexWriteBegin.2) := by
  unfold efIndexRemoveBySlot
  rw [if_neg (by simp [hw])]
  generalize db.efIndexWriteBegin = r
  obtain ⟨e, db₁⟩ := r
  cases e with
  | ok =>
      refine ⟨?_, fun h => absurd rfl h⟩
      simp only
      by_cases h0 : db₁.hashCapacity = 0
      · rw [if_pos h0]
      rw [if_neg h0]
      by_cases hoff : db₁.efSlotToOffset i = 0
      · rw [if_pos hoff]
      rw [if_neg hoff]
      rcases db₁.findSlotLoop (db₁.efSlotToOffset i) db₁.hashCapacity with _ | b
      · rfl
      simp only
      unfold efIndexRemoveByHash
      rw [if_neg h0]
      rcases db₁.findLoop (db₁.entry b).keyHash db₁.hashCapacity
        (efHashHome db₁.hashCapacity (db₁.entry b).keyHash) with _ | pos
      · rfl
      simp only
      rcases shiftLoop (db₁.hashCapacity * db₁.hashCapacity + 1) pos db₁ with _ | db₂ <;> rfl
  | _ => exact ⟨rfl, fun _ => rfl⟩

/-- **The removal of a slot's entry** on a steady handle leaves the view still, and takes off at
most the one entry. -/
lemma efIndexRemoveBySlot_spec (h : (db.view g).Bound g) (hs : db.steady (db.mapped i)) :
    Removed g db (db.mapped i) (db.efIndexRemoveBySlot i).2 := by
  unfold efIndexRemoveBySlot
  rw [if_neg (by rw [show db.readonly = false from h.writable]; simp)]
  obtain ⟨hindex, hbegin⟩ := efIndexWriteBegin_spec g db
  rcases hr : db.efIndexWriteBegin with ⟨e, db₁⟩
  rw [hr] at hindex hbegin
  simp only at hindex hbegin
  have hcount₁ : db₁.hashEntryCount = db.hashEntryCount := congrArg Index.count hindex
  have hcap₁ : db₁.hashCapacity = db.hashCapacity := congrArg Index.cap hindex
  have hsub₁ : db₁.index.Sub db.index := by
    rw [hindex]
    exact Index.Sub.refl _
  rcases hbegin with ⟨herr, hstill, -⟩ | ⟨rfl, hfree, w, hstill, hview⟩
  · have hsame := Removed.of_index hstill hindex (db.mapped i)
    cases e <;> first | exact absurd rfl herr | exact hsame
  simp only
  have hend : Removed g db (db.mapped i) db₁.efIndexWriteEnd :=
    removed_writeEnd hfree hstill hview hsub₁ (by omega)
  by_cases hcap0 : db₁.hashCapacity = 0
  · rw [if_pos hcap0]
    exact hend
  rw [if_neg hcap0]
  by_cases hoff : db₁.efSlotToOffset i = 0
  · rw [if_pos hoff]
    exact hend
  rw [if_neg hoff]
  have hoff₁ : db₁.efSlotToOffset i = db.efSlotToOffset i := by
    have hmax₁ : db₁.sb.maxSlots = db.sb.maxSlots := by
      rw [sb_eq g, hview, View.held_maxSlots, hstill.sb]
      rfl
    unfold efSlotToOffset
    rw [hmax₁, db₁.slotsBase_eq, hcap₁, db.slotsBase_eq]
  rcases hfind : db₁.findSlotLoop (db₁.efSlotToOffset i) db₁.hashCapacity with _ | b
  · exact removed_shrinkAfter hs hend
  · obtain ⟨hb, hslot⟩ := findSlotLoop_spec hfind
    have hmaps : db.index.maps (db.efSlotToOffset i) := by
      refine ⟨b, show b < db.hashCapacity by omega, ?_⟩
      rw [← hindex, index_entries hb, hslot, hoff₁]
    have hone : db.mapped i = 1 := if_pos hmaps
    have hcapg : db₁.hashCapacity = g.cap := hcap₁.trans h.cap
    obtain ⟨hview₂, hcnt₂, hsub₂⟩ := efIndexRemoveByHash_spec hcapg (db₁.entry b).keyHash
    simp only
    generalize db₁.efIndexRemoveByHash (db₁.entry b).keyHash = r at hview₂ hcnt₂ hsub₂ ⊢
    obtain ⟨e, db₂⟩ := r
    simp only at hview₂ hcnt₂ hsub₂
    rw [hindex] at hsub₂
    have hend₂ : Removed g db (db.mapped i) db₂.efIndexWriteEnd :=
      removed_writeEnd hfree hstill (hview₂.trans hview) hsub₂ (by omega)
    by_cases hok : e = .ok ∨ e = .notFound
    · rcases hok with rfl | rfl
      · exact removed_shrinkAfter hs hend₂
      · exact removed_shrinkAfter hs hend₂
    · cases e <;> simp only [reduceCtorEq, or_true, true_or, not_true, if_false] at hok ⊢ <;>
        exact hend₂

end Db

end Endfields.Model
