import Endfields.Spec.Rehash

/-!
# What the index functions leave alone

The functions that take entries off the index can shrink it and move the slot region, so they are no
frames.

* `Db.Refits db db'`: the transaction fields and the fixed bytes stay, and a handle whose size is
  that of its layout (`Db.Fitted`) stays one. Every one of these functions refits, and so does the
  replay of any log at all (`refits_efUndoReplayReverse`).
* `Db.Moves r db db'`: also, a handle that is steady through `r` removals keeps its sizes and its
  capacity, and loses at most `r` entries. Numbers of removals add up (`Moves.trans`).
-/

namespace Endfields.Model

open Endfields.Lib

namespace Db

/-- The size is that of the layout, for the capacity that the superblock stores, and a buffer has
room for it. -/
structure Fitted (db : Db) : Prop where
  rooted : db.Rooted
  room : db.backend = .memory → db.fileSize ≤ db.mapCapacity
  size : db.fileSize = efExpectedFileSize db.sb.maxSlots db.hashCapacity undoLogDefaultSlots
  cap : db.sb.hashCap = db.hashCapacity

/-- The call keeps what is fixed, and refits the size when it moves the slot region; it does not
move that of a file. -/
structure Refits (db db' : Db) : Prop extends Keeps db db' where
  mapCapacity : db'.mapCapacity = db.mapCapacity
  file : db.backend = .file → db'.fileSize = db.fileSize ∧ db'.hashCapacity = db.hashCapacity
  fitted : db.Fitted → db'.Fitted

/-- The call takes at most `r` entries off the index, and moves nothing on a handle that is steady
through them. -/
structure Moves (r : ℕ) (db db' : Db) : Prop extends Refits db db' where
  stays : db.steady r → db'.fileSize = db.fileSize ∧ db'.mapCapacity = db.mapCapacity ∧
    db'.hashCapacity = db.hashCapacity ∧ db.hashEntryCount - r ≤ db'.hashEntryCount

variable {db db' db'' : Db} {r r' : ℕ}

/-- From schema v5 on the stored capacity has 16 bits. -/
lemma efSbHashCapacityLoad_eq (h : schemaVersion ≤ db.sb.schemaVersion) :
    efSbHashCapacityLoad db.mem = db.sb.hashCap := if_pos h

/-- At the current schema the capacity is the low half of its word.
Source: `endfields.c`, `ef_hash_capacity_from_sb` -/
lemma efHashCapacityFromSb_eq (h : schemaVersion ≤ db.sb.schemaVersion) :
    efHashCapacityFromSb db.mem = db.sb.hashCap := by
  have h3 : ¬ (Superblock.read db.mem).schemaVersion < schemaVersionV3 := by
    have h' : schemaVersion ≤ (Superblock.read db.mem).schemaVersion := h
    simp only [schemaVersion, schemaVersionV3] at h' ⊢
    omega
  unfold efHashCapacityFromSb
  rw [if_neg h3]
  exact efSbHashCapacityLoad_eq h

/-- What stays decides the fit. -/
lemma Fitted.keeps (hf : db.Fitted) (h : Keeps db db') (hsize : db'.fileSize = db.fileSize)
    (hmap : db'.mapCapacity = db.mapCapacity) (hhash : db'.hashCapacity = db.hashCapacity)
    (hcap : db'.sb.hashCap = db.sb.hashCap) : db'.Fitted where
  rooted := h.rooted hf.rooted
  room hb := by
    rw [hsize, hmap]
    exact hf.room (h.backend.symm.trans hb)
  size := by rw [hsize, hf.size, hhash, h.maxSlots hf.rooted]
  cap := hcap.trans (hf.cap.trans hhash.symm)

/-- A step that keeps the sizes refits. -/
lemma Sized.refits (h : Sized db db') : Refits db db' where
  toKeeps := h.toKeeps
  mapCapacity := h.mapCapacity
  file _ := ⟨h.fileSize, h.hashCapacity⟩
  fitted hf := hf.keeps h.toKeeps h.fileSize h.mapCapacity h.hashCapacity (h.hashCap hf.rooted)

/-- Steps that refit compose. -/
lemma Refits.trans (h : Refits db db') (h' : Refits db' db'') : Refits db db'' where
  toKeeps := h.toKeeps.trans h'.toKeeps
  mapCapacity := h'.mapCapacity.trans h.mapCapacity
  file hb := ⟨(h'.file (h.backend.trans hb)).1.trans (h.file hb).1,
    (h'.file (h.backend.trans hb)).2.trans (h.file hb).2⟩
  fitted hf := h'.fitted (h.fitted hf)

/-- The entry count decides nothing. -/
lemma refits_hashEntryCount (db : Db) (count : ℕ) : Refits db { db with hashEntryCount := count } :=
  ⟨⟨rfl, rfl, rfl, rfl, rfl, rfl, rfl, fun _ _ _ => rfl⟩, rfl, fun _ => ⟨rfl, rfl⟩,
    fun hf => ⟨hf.rooted, hf.room, hf.size, hf.cap⟩⟩

/-- A step that keeps the sizes makes no move. -/
lemma Sized.moves (h : Sized db db') : Moves 0 db db' where
  toRefits := h.refits
  stays _ := ⟨h.fileSize, h.mapCapacity, h.hashCapacity, h.hashEntryCount.ge⟩

/-- A handle that is steady stays so, for the moves that are left. -/
lemma Moves.steady (h : Moves r db db') (hs : db.steady (r + r')) : db'.steady r' := by
  obtain ⟨-, -, hcap, hcount⟩ := h.stays (hs.mono (Nat.le_add_right r r'))
  exact hs.congr h.backend hcap (by omega)

/-- Removals add up. -/
lemma Moves.trans (h : Moves r db db') (h' : Moves r' db' db'') : Moves (r + r') db db'' where
  toRefits := h.toRefits.trans h'.toRefits
  stays hs := by
    obtain ⟨hfile, hmap, hcap, hcount⟩ := h.stays (hs.mono (Nat.le_add_right r r'))
    obtain ⟨hfile', hmap', hcap', hcount'⟩ := h'.stays (h.steady hs)
    exact ⟨hfile'.trans hfile, hmap'.trans hmap, hcap'.trans hcap, by omega⟩

/-- A bound on the moves may be raised. -/
lemma Moves.mono (h : Moves r db db') (hr : r ≤ r') : Moves r' db db' where
  toRefits := h.toRefits
  stays hs := by
    obtain ⟨hfile, hmap, hcap, hcount⟩ := h.stays (hs.mono hr)
    exact ⟨hfile, hmap, hcap, by omega⟩

/-- A step that leaves the geometry alone makes no further move. -/
lemma Moves.frame (h : Moves r db db') (h' : Frame db' db'') : Moves r db db'' :=
  h.trans h'.toSized.moves

/-- A step that keeps the sizes, before others. -/
lemma Sized.then_moves (h : Sized db db') (h' : Moves r db' db'') : Moves r db db'' :=
  (h.moves.trans h').mono (by omega)

variable (db)

/-! ### Buckets -/

/-- A stored entry keeps the sizes.
Source: `ef_index.c`, `ef_hash_entry_store_atomic` -/
lemma sized_setEntry (b : ℕ) (e : HashEntry) : Sized db (db.setEntry b e) :=
  ((Sized.refl db).store (by omega)).store (by omega)

/-- The loop of the insertion keeps the sizes.
Source: `ef_index.c`, `ef_index_put_entry` -/
lemma sized_putEntryLoop (k off fuel i home : ℕ) (e : HashEntry) (db : Db) :
    Sized db (putEntryLoop k off fuel i home e db).2.2 := by
  induction fuel generalizing i home e db with
  | zero => exact Sized.refl db
  | succ fuel ih =>
      unfold putEntryLoop
      simp only
      by_cases h1 : home + db.hashCapacity ≤ i
      · rw [if_pos h1]
        exact Sized.refl db
      rw [if_neg h1]
      by_cases h2 : (db.entry (i % db.hashCapacity)).empty = true
      · rw [if_pos h2]
        exact sized_setEntry db _ _
      rw [if_neg h2]
      by_cases h3 : (db.entry (i % db.hashCapacity)).keyHash = k
      · rw [if_pos h3]
        exact sized_setEntry db _ _
      rw [if_neg h3]
      split_ifs
      · exact (sized_setEntry db _ _).trans (ih _ _ _ _)
      · exact ih _ _ _ _

/-- The insertion keeps the sizes.
Source: `ef_index.c`, `ef_index_put_entry` -/
lemma sized_efIndexPutEntry (k off : ℕ) : Sized db (db.efIndexPutEntry k off).2.2 := by
  unfold efIndexPutEntry
  split_ifs
  · exact Sized.refl db
  · exact Sized.refl db
  · exact sized_putEntryLoop ..

/-- The shift behind a removal keeps the sizes.
Source: `ef_index.c`, `ef_index_remove_by_hash` -/
lemma sized_shiftLoop (fuel pos : ℕ) (db : Db) {db' : Db} (h : shiftLoop fuel pos db = some db') :
    Sized db db' := by
  induction fuel generalizing pos db with
  | zero => cases h
  | succ fuel ih =>
      unfold shiftLoop at h
      simp only at h
      split_ifs at h
      · cases h
        exact sized_setEntry db _ _
      · exact (sized_setEntry db _ _).trans (ih _ _ h)

/-- A removal counts one entry off. -/
lemma moves_efIndexRemoveByHash (k : ℕ) : Moves 1 db (db.efIndexRemoveByHash k).2 := by
  have hrefl : Moves 1 db db := (Sized.refl db).moves.mono (by omega)
  unfold efIndexRemoveByHash
  by_cases h0 : db.hashCapacity = 0
  · rw [if_pos h0]
    exact hrefl
  rw [if_neg h0]
  rcases db.findLoop k db.hashCapacity (efHashHome db.hashCapacity k) with _ | pos
  · exact hrefl
  simp only
  rcases hshift : shiftLoop (db.hashCapacity * db.hashCapacity + 1) pos db with _ | db₁
  · exact hrefl
  have hf := sized_shiftLoop _ _ db hshift
  exact hf.then_moves ⟨refits_hashEntryCount db₁ _, fun _ => ⟨rfl, rfl, rfl, le_refl _⟩⟩

/-! ### Rehash -/

/-- The reinsertion keeps the sizes.
Source: `ef_index.c`, `ef_index_rehash_to` -/
lemma sized_reinsert (es : List HashEntry) : Sized db (db.reinsert es).2 := by
  induction es generalizing db with
  | nil => exact Sized.refl db
  | cons e es ih =>
      have hf := sized_efIndexPutEntry db e.keyHash e.slotOffset
      unfold reinsert
      generalize db.efIndexPutEntry e.keyHash e.slotOffset = q at hf ⊢
      obtain ⟨err, added, db₁⟩ := q
      have hf : Sized db db₁ := hf
      cases err with
      | ok => exact hf.trans (ih db₁)
      | _ => exact hf

/-- The shift of the links leaves the geometry alone.
Source: `ef_index.c`, `ef_index_fixup_all_offsets` -/
lemma frame_efIndexFixupAllOffsets (oldBase newBase : ℕ) :
    Frame db (db.efIndexFixupAllOffsets oldBase newBase) := by
  have hloop : ∀ (db : Db) n, Frame db (db.fixupSlotsLoop oldBase newBase n) := by
    intro db n
    induction n with
    | zero => exact Frame.refl db
    | succ n ih =>
        have hslot : ∀ db : Db, Frame db (db.fixupSlot oldBase newBase n) := by
          intro db
          unfold fixupSlot
          simp only
          split_ifs
          · exact (Frame.refl db).setNext (slotPtr_ge db n)
          · exact Frame.refl db
        exact ih.trans (hslot _)
  unfold efIndexFixupAllOffsets
  refine Frame.trans ?_ (hloop _ _)
  exact Frame.setQueueTail (Frame.setQueueHead (Frame.setFreeListHead (Frame.refl db)))

/-- The capacity is not among the fixed bytes. -/
lemma keeps_efSbHashCapacityStore (newCapacity : ℕ) : Keeps db
    (db.efSbHashCapacityStore newCapacity) := by
  refine ⟨rfl, rfl, rfl, rfl, rfl, rfl, rfl, fun _ x hx => store_apply_of_outside ?_⟩
  unfold fixedByte at hx
  omega

/-- The handle that a rehash binds once the slot region has moved. -/
def rebound (db : Db) (newCapacity : ℕ) : Db :=
  ((db.withMem (memmove db.mem (efIndexSlotsBase newCapacity) db.slotsBase
    (db.sb.maxSlots * 64 % u64))).efSbHashCapacityStore newCapacity).efIndexBindLayout

/-- **The move of the slot region** stays behind the superblock. -/
lemma keeps_rebound (newCapacity : ℕ) : Keeps db (db.rebound newCapacity) := by
  have h₁ : Sized db (db.withMem (memmove db.mem (efIndexSlotsBase newCapacity) db.slotsBase
      (db.sb.maxSlots * 64 % u64))) := by
    refine (Sized.refl db).withMem fun _ x hx => ?_
    have hge : 64 ≤ efIndexSlotsBase newCapacity := by
      unfold efIndexSlotsBase
      omega
    have hlt := sizedByte_lt hx
    exact memmove_apply_of_outside (.inl (by omega))
  unfold rebound
  generalize db.withMem (memmove db.mem (efIndexSlotsBase newCapacity) db.slotsBase
      (db.sb.maxSlots * 64 % u64)) = db₁ at h₁ ⊢
  have h₂ : Keeps db (db₁.efSbHashCapacityStore newCapacity) :=
    h₁.toKeeps.trans (keeps_efSbHashCapacityStore db₁ newCapacity)
  exact h₂.trans ⟨rfl, rfl, rfl, rfl, rfl, rfl, rfl, fun _ _ _ => rfl⟩

/-- The handle is bound to the capacity that was stored. -/
lemma hashCapacity_rebound (hr : db.Rooted) {newCapacity : ℕ} (hle : newCapacity ≤ 0xFFFF) :
    (db.rebound newCapacity).hashCapacity = newCapacity ∧
      (db.rebound newCapacity).sb.hashCap = newCapacity := by
  have hschema := (keeps_rebound db newCapacity).schema hr
  have hcap : (db.rebound newCapacity).sb.hashCap = newCapacity := by
    refine (load_store_self _ 56 2 _).trans ?_
    rw [if_neg (by omega)]
    exact Nat.mod_eq_of_lt (by omega)
  have hload : (db.rebound newCapacity).hashCapacity =
      efSbHashCapacityLoad (db.rebound newCapacity).mem := rfl
  exact ⟨hload.trans ((efSbHashCapacityLoad_eq (hschema ▸ hr.1)).trans hcap), hcap⟩

/-- What follows the binding leaves it alone. -/
lemma refits_rehashMove (newCapacity : ℕ) (backup : List HashEntry) :
    Refits (db.rebound newCapacity) (db.rehashMove newCapacity backup).2 := by
  unfold rehashMove
  simp only
  generalize backup.map _ = moved
  have h₄ := (frame_efIndexFixupAllOffsets (db.rebound newCapacity) db.slotsBase
    (efIndexSlotsBase newCapacity)).toSized
  unfold rebound at h₄ ⊢
  generalize ((db.withMem (memmove db.mem (efIndexSlotsBase newCapacity) db.slotsBase
    (db.sb.maxSlots * 64 % u64))).efSbHashCapacityStore newCapacity).efIndexBindLayout = db₃ at h₄ ⊢
  generalize db₃.efIndexFixupAllOffsets db.slotsBase (efIndexSlotsBase newCapacity) = db₄ at h₄ ⊢
  have h₅ : Sized db₃ (db₄.zero 64 (newCapacity * 16)) :=
    h₄.withMem fun _ x hx => memset_apply_of_outside (.inl (sizedByte_lt hx))
  generalize db₄.zero 64 (newCapacity * 16) = db₅ at h₅ ⊢
  have h₆ := h₅.trans (sized_reinsert db₅ moved)
  generalize db₅.reinsert moved = q at h₆ ⊢
  obtain ⟨err, db₆⟩ := q
  have h₆ : Sized db₃ db₆ := h₆
  cases err with
  | ok =>
      simp only
      have h₇ := h₆.refits.trans (refits_hashEntryCount db₆ moved.length)
      generalize ({ db₆ with hashEntryCount := moved.length } : Db) = db₇ at h₇ ⊢
      have h₈ : Frame db₇ (db₇.efDbMarkMetaDirty.efDbRefreshSlotCrcs.efIndexWriteEnd) :=
        ((Frame.refl db₇).markMetaDirty.trans (frame_efDbRefreshSlotCrcs _)).trans
          (frame_efIndexWriteEnd _)
      exact h₇.trans h₈.toSized.refits
  | _ => exact (h₆.trans (frame_efIndexWriteEnd db₆).toSized).refits

/-- **A rehash in a buffer** is given the size of its new layout. -/
lemma refits_rehash_memory (hmem : db.backend = .memory) {newCapacity : ℕ}
    (hle : newCapacity ≤ 0xFFFF) (backup : List HashEntry)
    (hroom : efIndexFileSize db.sb.maxSlots newCapacity ≤ db.mapCapacity) :
    Refits db (rehashMove { db with fileSize := efIndexFileSize db.sb.maxSlots newCapacity }
      newCapacity backup).2 := by
  have h : Keeps db ({ db with fileSize := efIndexFileSize db.sb.maxSlots newCapacity } : Db) :=
    ⟨rfl, rfl, rfl, rfl, rfl, rfl, rfl, fun _ _ _ => rfl⟩
  have hsize : ({ db with fileSize := efIndexFileSize db.sb.maxSlots newCapacity } : Db).fileSize =
      efIndexFileSize db.sb.maxSlots newCapacity := rfl
  have hmap : ({ db with fileSize := efIndexFileSize db.sb.maxSlots newCapacity } : Db).mapCapacity =
      db.mapCapacity := rfl
  generalize ({ db with fileSize := efIndexFileSize db.sb.maxSlots newCapacity } : Db) = db₁
    at h hsize hmap ⊢
  have hmove := refits_rehashMove db₁ newCapacity backup
  have hbound := h.trans (keeps_rebound db₁ newCapacity)
  have hsame : (db₁.rebound newCapacity).fileSize = db₁.fileSize ∧
      (db₁.rebound newCapacity).mapCapacity = db₁.mapCapacity := ⟨rfl, rfl⟩
  refine ⟨hbound.trans hmove.toKeeps, hmove.mapCapacity.trans hmap,
    fun hfile => (by rw [hmem] at hfile; cases hfile), fun hf => hmove.fitted ?_⟩
  obtain ⟨hhash, hcap⟩ := hashCapacity_rebound db₁ (h.rooted hf.rooted) hle
  refine ⟨hbound.rooted hf.rooted, fun _ => ?_, ?_, hcap.trans hhash.symm⟩
  · rw [hsame.1, hsame.2, hsize, hmap]
    exact hroom
  rw [hbound.maxSlots hf.rooted, hhash, hsame.1]
  refine hsize.trans ?_
  unfold efIndexFileSize efExpectedFileSize
  simp only [undoLogBytes, Nat.add_assoc]

/-- A shrink never resizes a file, and refits a buffer. -/
lemma refits_efIndexShrink (newCapacity : ℕ) : Refits db (db.efIndexShrink newCapacity).2 := by
  have hrefl := (Sized.refl db).refits
  unfold efIndexShrink
  by_cases h0 : newCapacity = 0
  · rw [if_pos h0]
    exact hrefl
  rw [if_neg h0]
  unfold efIndexRehashTo
  refine iteInduction (motive := fun r : Err × Db => Refits db r.2) (fun _ => hrefl) fun _ => ?_
  refine iteInduction (motive := fun r : Err × Db => Refits db r.2) (fun _ => hrefl) fun _ => ?_
  refine iteInduction (motive := fun r : Err × Db => Refits db r.2) (fun _ => hrefl) fun hle => ?_
  have hbegin := (frame_efIndexWriteBegin db).toSized.refits
  generalize db.efIndexWriteBegin = r at hbegin ⊢
  obtain ⟨e, db₁⟩ := r
  have hbegin : Refits db db₁ := hbegin
  have hend := hbegin.trans (frame_efIndexWriteEnd db₁).toSized.refits
  cases e with
  | ok =>
      simp only
      refine iteInduction (motive := fun r : Err × Db => Refits db r.2) (fun _ => hend) fun _ => ?_
      refine iteInduction (motive := fun r : Err × Db => Refits db r.2) (fun _ => hend) fun _ => ?_
      refine iteInduction (motive := fun r : Err × Db => Refits db r.2) (fun _ => hend) fun _ => ?_
      refine iteInduction (motive := fun r : Err × Db => Refits db r.2) (fun _ => hend) fun _ => ?_
      refine iteInduction (motive := fun r : Err × Db => Refits db r.2) (fun _ => hend)
        fun hfile => ?_
      refine iteInduction (motive := fun r : Err × Db => Refits db r.2) (fun _ => hend) fun _ => ?_
      refine iteInduction (motive := fun r : Err × Db => Refits db r.2) (fun _ => hend) fun _ => ?_
      refine iteInduction (motive := fun r : Err × Db => Refits db r.2) (fun _ => hend) fun hroom => ?_
      split
      · exact absurd ⟨trivial, ‹_›⟩ hfile
      · exact hbegin.trans (refits_rehash_memory db₁ ‹_› (by omega) _ (not_lt.mp fun h =>
            hroom ⟨‹_›, h⟩))
  | _ => exact hbegin

/-- The attempt to shrink moves nothing on a handle that is steady already. -/
lemma moves_shrinkAfterRemove :
    Moves 0 db (db.shrinkAfterRemove db.hashEntryCount db.hashCapacity) where
  toRefits := by
    unfold shrinkAfterRemove
    split_ifs
    · exact refits_efIndexShrink db _
    · exact (Sized.refl db).refits
  stays hs := by
    obtain ⟨hstill, hindex⟩ := shrinkAfterRemove_spec (g := ⟨0, 0, by norm_num [u64]⟩) hs
    exact ⟨congrArg Core.fileSize hstill.core, congrArg Core.mapCapacity hstill.core,
      congrArg Index.cap hindex, (congrArg Index.count hindex).ge⟩

/-- The lock leaves the slots where they are.
Source: `ef_index.c`, `ef_index_write_begin` -/
lemma efSlotToOffset_efIndexWriteBegin (i : ℕ) :
    db.efIndexWriteBegin.2.efSlotToOffset i = db.efSlotToOffset i := by
  let g : Geometry := ⟨0, 0, by norm_num [u64]⟩
  have hcap : db.efIndexWriteBegin.2.hashCapacity = db.hashCapacity :=
    (frame_efIndexWriteBegin db).hashCapacity
  have hmax : db.efIndexWriteBegin.2.sb.maxSlots = db.sb.maxSlots := by
    rcases (efIndexWriteBegin_spec g db).2 with ⟨-, hstill, -⟩ | ⟨-, -, w, hstill, hview⟩
    · exact congrArg Superblock.maxSlots hstill.sb
    · rw [sb_eq g, hview, View.held_maxSlots, hstill.sb]
      rfl
  unfold efSlotToOffset
  rw [hmax, slotsBase_eq, hcap, db.slotsBase_eq]

/-- The end of a removal: the section is left, and the shrink is attempted. -/
lemma Moves.end_removal {db : Db} (h : Moves r db db') :
    Moves r db (db'.efIndexWriteEnd.efDbMarkMetaDirty.shrinkAfterRemove db'.hashEntryCount
      db'.hashCapacity) := by
  have hf : Frame db' db'.efIndexWriteEnd.efDbMarkMetaDirty := (frame_efIndexWriteEnd db').markMetaDirty
  rw [← hf.hashEntryCount, ← hf.hashCapacity]
  exact (h.frame hf).trans (moves_shrinkAfterRemove _)

/-- The removal of a slot's entry takes one entry off if there is one. -/
lemma moves_efIndexRemoveBySlot (i : ℕ) : Moves (db.mapped i) db (db.efIndexRemoveBySlot i).2 := by
  have hbegin := frame_efIndexWriteBegin db
  have hoff := efSlotToOffset_efIndexWriteBegin db i
  have hindex := index_efIndexWriteBegin db
  unfold efIndexRemoveBySlot
  refine iteInduction (motive := fun r : Err × Db => Moves (db.mapped i) db r.2)
    (fun _ => (Sized.refl db).moves.mono (Nat.zero_le _)) fun _ => ?_
  generalize db.efIndexWriteBegin = r at hbegin hoff hindex ⊢
  obtain ⟨e, db₁⟩ := r
  have hf : Frame db db₁ := hbegin
  have hsame : Moves (db.mapped i) db db₁ := hf.moves.mono (Nat.zero_le _)
  have hoff : db₁.efSlotToOffset i = db.efSlotToOffset i := hoff
  have hindex : db₁.index = db.index := hindex
  have hend := hsame.frame (frame_efIndexWriteEnd db₁)
  cases e with
  | ok =>
      simp only
      refine iteInduction (motive := fun r : Err × Db => Moves (db.mapped i) db r.2)
        (fun _ => hend) fun _ => ?_
      refine iteInduction (motive := fun r : Err × Db => Moves (db.mapped i) db r.2)
        (fun _ => hend) fun _ => ?_
      rcases hfind : db₁.findSlotLoop (db₁.efSlotToOffset i) db₁.hashCapacity with _ | b
      · exact hsame.end_removal
      -- an entry is taken off only if the table maps the slot
      have hone : db.mapped i = 1 := by
        obtain ⟨hb, hslot⟩ := findSlotLoop_spec hfind
        refine if_pos ⟨b, ?_, ?_⟩
        · exact hb.trans_eq (congrArg Index.cap hindex)
        · rw [← hindex, index_entries hb, hslot, hoff]
      have hrem : Moves 1 db₁ (db₁.efIndexRemoveByHash (db₁.entry b).keyHash).2 :=
        moves_efIndexRemoveByHash db₁ _
      simp only
      generalize db₁.efIndexRemoveByHash (db₁.entry b).keyHash = q at hrem ⊢
      obtain ⟨e, db₂⟩ := q
      have hall : Moves (db.mapped i) db db₂ := by
        rw [hone]
        exact hf.then_moves hrem
      have hshrink := hall.end_removal
      have hend₂ := hall.frame (frame_efIndexWriteEnd db₂)
      cases e with
      | ok => exact hshrink
      | notFound => exact hshrink
      | _ => exact hend₂
  | _ => exact hsame

/-! ### The replay -/

/-- Whatever a record says, undoing it refits. -/
lemma refits_replayRecord (rec : ℕ) : Refits db (db.replayRecord rec).2 := by
  unfold replayRecord
  extract_lets off aux before slotId
  rcases UndoKind.ofCode (load db.mem rec 1) with _ | kind
  · exact (Sized.refl db).refits
  clear_value off aux before slotId
  cases kind with
  | slotAlloc => exact (frame_efUndoRestoreSlotAlloc db slotId).toSized.refits
  | slotFree => exact (frame_efUndoRestoreSlotFree db slotId _ _).toSized.refits
  | slotStatus => exact (frame_efUndoRestoreSlotStatus db slotId _ _).toSized.refits
  | slotNext => exact (frame_efUndoRestoreSlotNext db slotId _).toSized.refits
  | slotPayload => exact (frame_undoRestoreSlotPayload db slotId _).toSized.refits
  | indexPut =>
      have hrem := (moves_efIndexRemoveBySlot db slotId).toRefits
      simp only
      generalize db.efIndexRemoveBySlot slotId = r at hrem ⊢
      obtain ⟨e, db₁⟩ := r
      have hrem : Refits db db₁ := hrem
      cases e with
      | _ => exact hrem
  | indexRemove =>
      have hput := (sized_efIndexPutEntry db (load db.mem before 8) off).refits
      simp only
      generalize db.efIndexPutEntry (load db.mem before 8) off = r at hput ⊢
      obtain ⟨e, added, db₁⟩ := r
      exact hput
  | queuePush => exact (frame_efQueueRestoreBeforePush db _ _).toSized.refits
  | queuePop => exact (frame_efQueueRestoreBeforePop db _ _ _).toSized.refits
  | freeCount => exact (frame_undoRestoreFreeCount db _).toSized.refits

/-- The replay refits.
Source: `ef_undo.c`, `ef_undo_replay_reverse` -/
lemma refits_replayLoop (h fuel pos : ℕ) : Refits db (replayLoop h fuel pos db).2 := by
  induction fuel generalizing pos db with
  | zero => exact (Sized.refl db).refits
  | succ fuel ih =>
      unfold replayLoop
      refine iteInduction (motive := fun r : Err × Db => Refits db r.2) (fun _ =>
          (Sized.refl db).refits)
        fun _ => ?_
      have hrec := refits_replayRecord db (h + (pos - 32))
      generalize db.replayRecord (h + (pos - 32)) = r at hrec ⊢
      obtain ⟨e, db₁⟩ := r
      have hrec : Refits db db₁ := hrec
      cases e with
      | ok => exact hrec.trans (ih db₁ _)
      | _ => exact hrec

/-- **The replay** of any log at all refits. -/
lemma refits_efUndoReplayReverse : Refits db db.efUndoReplayReverse.2 := by
  unfold efUndoReplayReverse
  rcases db.efUndoHeaderPtr with _ | h
  · exact (Sized.refl db).refits
  · exact iteInduction (motive := fun r : Err × Db => Refits db r.2) (fun _ => (Sized.refl db).refits)
      fun _ => refits_replayLoop db h _ _

end Db

end Endfields.Model
