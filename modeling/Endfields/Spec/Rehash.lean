import Endfields.Spec.Release
import Endfields.Spec.Table

/-!
# The rehash: moving the slot region

`ef_index_rehash_to` moves the slots behind the resized table, shifts the offsets that lead to them
and inserts the entries into the new table. The old layout is read with a geometry `g`, the new one
with a geometry `g'` that has the same number of slots.

* `View.relink`, `View.reseal`: every link replaced, every checksum computed again.
* **The move** (`view_relocate`): the slots of the old layout are those of the new one, with their
  links shifted.
* **The new table** (`reinsert_spec`): the entries that go in are those that are there afterwards,
  as far as the table has room.
-/

namespace Endfields.Model

open Endfields.Lib

/-! ### Offsets -/

/-- The shift of a slot's link.
Source: `ef_index.c`, `ef_index_fixup_all_offsets` -/
def fixNext (oldBase newBase next : ℕ) : ℕ :=
  if oldBase ≤ next then (next + (newBase + (u64 - oldBase))) % u64 else next

section fix

variable {g g' : Geometry} {i off : ℕ}

/-- The slots begin at an offset that fits its word. -/
lemma Geometry.base_lt (g : Geometry) : g.base < u64 := by
  have hsize := g.size_lt
  rw [Geometry.size_eq] at hsize
  unfold Geometry.undoBase at hsize
  omega

/-- The difference of the bases leads from a slot to the same slot of the new layout. -/
lemma shift_ptr (hn : g'.n = g.n) (hi : i < g.n) :
    (g.ptr i + (g'.base + (u64 - g.base))) % u64 = g'.ptr i := by
  have hb := g.base_lt
  have hp := g'.ptr_lt_u64 (i := i) (by omega)
  rw [show g.ptr i + (g'.base + (u64 - g.base)) = g'.ptr i + u64 by
    unfold Geometry.ptr
    omega, Nat.add_mod_right]
  exact Nat.mod_eq_of_lt hp

/-- A link to a slot is shifted to that slot.
Source: `ef_index.c`, `ef_index_fixup_all_offsets` -/
lemma fixNext_ptr (hn : g'.n = g.n) (hi : i < g.n) :
    fixNext g.base g'.base (g.ptr i) = g'.ptr i := by
  unfold fixNext
  rw [if_pos (g.base_le_ptr i), shift_ptr hn hi]

/-- The link `0` stays.
Source: `ef_index.c`, `ef_index_fixup_all_offsets` -/
lemma fixNext_zero (g g' : Geometry) : fixNext g.base g'.base 0 = 0 := by
  have hb := g.base_ge
  unfold fixNext
  rw [if_neg (by omega)]

/-- Links and the offsets in the superblock and in the table are shifted alike. -/
lemma efIndexFixupOffset_eq (g g' : Geometry) (off : ℕ) :
    efIndexFixupOffset off g.base g'.base = fixNext g.base g'.base off := by
  have hb := g.base_ge
  unfold efIndexFixupOffset fixNext
  by_cases hle : g.base ≤ off
  · rw [if_neg (by omega), if_pos hle]
  · rw [if_pos (by omega), if_neg hle]

/-- A shifted link fits its word. -/
lemma fixNext_lt (g g' : Geometry) (h : off < u64) : fixNext g.base g'.base off < u64 := by
  unfold fixNext
  split_ifs
  · exact Nat.mod_lt _ (by norm_num [u64])
  · exact h

end fix

/-- An entry that an insertion takes: its words fit, and it is not the mark of an empty bucket. -/
def HashEntry.Valid (e : HashEntry) : Prop := e.keyHash < u64 ∧ e.slotOffset < u64 ∧ e.slotOffset ≠ 0

/-! ### Loops over the slots -/

namespace View

/-- Put the links of the first `k` slots through `f`. -/
@[simps] def relink (f : ℕ → ℕ) (k : ℕ) (v : View) : View :=
  { v with slots := fun i =>
      if i < k then { v.slots i with nextOffset := f (v.slots i).nextOffset } else v.slots i }

/-- Compute the checksums of the first `k` slots again. -/
@[simps] def reseal (k : ℕ) (v : View) : View :=
  { v with slots := fun i =>
      if i < k ∧ efSlotStatusHasCrc (v.slots i).status = true then
        (v.slots i).sealed v.sb.slotCrc i
      else v.slots i }

end View

/-- The handle's slots are those of the geometry `g`, wherever the image ends: a shrink sets the end
first, and moves the slots then. -/
structure View.Laid (g : Geometry) (v : View) : Prop where
  cap : v.core.hashCapacity = g.cap
  writable : v.core.readonly = false
  maxSlots : v.sb.maxSlots = g.n

/-- A bound handle lies as its geometry says. -/
lemma View.Bound.laid {g : Geometry} {v : View} (h : v.Bound g) : v.Laid g :=
  ⟨h.cap, h.writable, h.maxSlots⟩

/-- An entry as a table holds it. -/
def HashEntry.pair (e : HashEntry) : ℕ × ℕ := (e.keyHash, e.slotOffset)

namespace Db

variable {g g' : Geometry} {db db' : Db} {i k : ℕ}

/-- The link of one slot is shifted.
Source: `ef_index.c`, `ef_index_fixup_all_offsets` -/
lemma view_fixupSlot (hcap : db.hashCapacity = g.cap) (hi : i < g.n) (oldBase newBase : ℕ) :
    (db.fixupSlot oldBase newBase i).view g = (db.view g).setSlot i
      { (db.view g).slots i with
        nextOffset := fixNext oldBase newBase ((db.view g).slots i).nextOffset } := by
  unfold fixupSlot fixNext
  rw [slot_eq hcap hi]
  simp only
  by_cases hle : oldBase ≤ ((db.view g).slots i).nextOffset
  · rw [if_pos hle, if_pos hle, slotPtr_eq hcap, view_setNext hi, Nat.mod_mod]
  · rw [if_neg hle, if_neg hle]
    exact (View.setSlot_self _ i).symm

/-- The shift of a link leaves the capacity alone. -/
lemma fixupSlot_hashCapacity (oldBase newBase : ℕ) :
    (db.fixupSlot oldBase newBase i).hashCapacity = db.hashCapacity := by
  unfold fixupSlot
  simp only
  split_ifs <;> rfl

/-- The shift of the links leaves the capacity alone. -/
lemma fixupSlotsLoop_hashCapacity (oldBase newBase k : ℕ) :
    (db.fixupSlotsLoop oldBase newBase k).hashCapacity = db.hashCapacity := by
  induction k with
  | zero => rfl
  | succ k ih => exact (fixupSlot_hashCapacity oldBase newBase).trans ih

/-- The links of the first `k` slots are shifted.
Source: `ef_index.c`, `ef_index_fixup_all_offsets` -/
lemma view_fixupSlotsLoop (hcap : db.hashCapacity = g.cap) (oldBase newBase : ℕ) (hk : k ≤ g.n) :
    (db.fixupSlotsLoop oldBase newBase k).view g =
      (db.view g).relink (fixNext oldBase newBase) k := by
  induction k with
  | zero =>
      show db.view g = _
      unfold View.relink
      simp
  | succ k ih =>
      have ih := ih (by omega)
      rw [fixupSlotsLoop, view_fixupSlot ((fixupSlotsLoop_hashCapacity ..).trans hcap) (by omega), ih]
      unfold View.relink View.setSlot
      simp only [lt_irrefl, if_false]
      congr 1
      funext j
      rw [Function.update_apply]
      by_cases hj : j = k
      · subst hj
        rw [if_pos rfl, if_pos (by omega)]
      · rw [if_neg hj]
        by_cases hlt : j < k
        · rw [if_pos hlt, if_pos (by omega)]
        · rw [if_neg hlt, if_neg (by omega)]

/-- One slot gets a new checksum, if its status has one.
Source: `endfields.c`, `ef_db_refresh_slot_crcs` -/
lemma view_refreshSlotCrc (hcap : db.hashCapacity = g.cap) (hi : i < g.n) :
    (db.refreshSlotCrc i).view g =
      if efSlotStatusHasCrc ((db.view g).slots i).status = true then
        (db.view g).setSlot i (((db.view g).slots i).sealed (db.view g).sb.slotCrc i)
      else db.view g := by
  unfold refreshSlotCrc
  rw [slot_eq hcap hi]
  by_cases hcrc : efSlotStatusHasCrc ((db.view g).slots i).status = true
  · rw [if_pos hcrc, if_pos hcrc, slotPtr_eq hcap, view_efSlotHeaderCrcStore hi]
  · rw [if_neg hcrc, if_neg hcrc]

/-- A checksum leaves the capacity alone. -/
lemma efSlotHeaderCrcStore_hashCapacity (id p : ℕ) :
    (db.efSlotHeaderCrcStore id p).hashCapacity = db.hashCapacity := by
  unfold efSlotHeaderCrcStore
  split_ifs <;> rfl

/-- The new checksums leave the capacity alone. -/
lemma refreshSlotCrcsLoop_hashCapacity (k : ℕ) :
    (db.refreshSlotCrcsLoop k).hashCapacity = db.hashCapacity := by
  induction k with
  | zero => rfl
  | succ k ih =>
      rw [refreshSlotCrcsLoop, refreshSlotCrc]
      split_ifs
      · rw [efSlotHeaderCrcStore_hashCapacity, ih]
      · exact ih

/-- The first `k` slots get new checksums.
Source: `endfields.c`, `ef_db_refresh_slot_crcs` -/
lemma view_refreshSlotCrcsLoop (hcap : db.hashCapacity = g.cap) (hk : k ≤ g.n) :
    (db.refreshSlotCrcsLoop k).view g = (db.view g).reseal k := by
  induction k with
  | zero =>
      show db.view g = _
      unfold View.reseal
      simp
  | succ k ih =>
      have ih := ih (by omega)
      rw [refreshSlotCrcsLoop, view_refreshSlotCrc ((refreshSlotCrcsLoop_hashCapacity k).trans hcap)
        (by omega), ih]
      have hself : ((db.view g).reseal k).slots k = (db.view g).slots k := by
        simp [View.reseal]
      rw [hself]
      by_cases hcrc : efSlotStatusHasCrc ((db.view g).slots k).status = true
      · rw [if_pos hcrc]
        unfold View.reseal View.setSlot
        simp only
        congr 1
        funext j
        rw [Function.update_apply]
        by_cases hj : j = k
        · subst hj
          rw [if_pos rfl, if_pos ⟨by omega, hcrc⟩]
        · rw [if_neg hj]
          by_cases hlt : j < k ∧ efSlotStatusHasCrc ((db.view g).slots j).status = true
          · rw [if_pos hlt, if_pos ⟨by omega, hlt.2⟩]
          · rw [if_neg hlt, if_neg fun h => hlt ⟨by omega, h.2⟩]
      · rw [if_neg hcrc]
        unfold View.reseal
        congr 1
        funext j
        by_cases hlt : j < k ∧ efSlotStatusHasCrc ((db.view g).slots j).status = true
        · rw [if_pos hlt, if_pos ⟨by omega, hlt.2⟩]
        · rw [if_neg hlt, if_neg]
          rintro ⟨hj, hc⟩
          refine hlt ⟨?_, hc⟩
          rcases Nat.lt_succ_iff_lt_or_eq.mp hj with hlt' | rfl
          · exact hlt'
          · exact absurd hc hcrc

/-- All slots get new checksums, with the flag.
Source: `endfields.c`, `ef_db_refresh_slot_crcs` -/
lemma view_efDbRefreshSlotCrcs (h : (db.view g).Bound g) :
    db.efDbRefreshSlotCrcs.view g =
      if (db.view g).sb.slotCrc = true then (db.view g).reseal g.n else db.view g := by
  have hmax : db.sb.maxSlots = g.n := h.maxSlots
  have hsb : db.sb = (db.view g).sb := rfl
  unfold efDbRefreshSlotCrcs
  rw [hmax, hsb]
  by_cases hcrc : (db.view g).sb.slotCrc = true
  · rw [if_pos hcrc, if_pos hcrc, view_refreshSlotCrcsLoop h.cap le_rfl]
  · rw [if_neg hcrc, if_neg hcrc]

/-! ### The move -/

/-- Bytes outside the superblock and the slots do not show in the slots. -/
lemma view_of_buckets {m : Mem} (h : ∀ x, x < 64 ∨ g.base ≤ x → m x = db.mem x) :
    (db.withMem m).view g = db.view g := by
  have hub : g.base ≤ g.undoBase := by
    unfold Geometry.undoBase
    omega
  rw [view_withMem, Superblock.read_congr fun x hx => h x (.inl hx),
    Geometry.slots_of_agree fun x hx _ => h x (.inr hx),
    Geometry.segment_of_agree fun x hx => h x (.inr (by omega))]
  rfl

/-- Read at the new base, the moved bytes are the same slots. -/
lemma slots_memmove (m : Mem) (hn : g'.n = g.n) :
    g'.slots (memmove m g'.base g.base (64 * g.n)) = g.slots m := by
  funext i
  unfold Geometry.slots
  rw [hn]
  split_ifs with hi
  · refine Slot.read_shift fun x hx => ?_
    unfold Geometry.ptr
    rw [Nat.add_assoc, Nat.add_assoc]
    exact memmove_apply_of_inside (by omega)
  · rfl

/-- The slot region moved behind a table of the new capacity, the handle bound to it. -/
def rebind (db : Db) (newCapacity : ℕ) : Db :=
  ((db.withMem (memmove db.mem (efIndexSlotsBase newCapacity) db.slotsBase
    (db.sb.maxSlots * 64 % u64))).efSbHashCapacityStore newCapacity).efIndexBindLayout

/-- The rehash up to the point where the entries go into the new, empty table. -/
def relocate (db : Db) (newCapacity : ℕ) : Db :=
  ((db.rebind newCapacity).efIndexFixupAllOffsets db.slotsBase (efIndexSlotsBase newCapacity)).zero
    64 (newCapacity * 16)

/-- The entries of the old table, shifted. -/
def shifted (db : Db) (newCapacity : ℕ) (es : List HashEntry) : List HashEntry :=
  es.map fun e =>
    ⟨e.keyHash, efIndexFixupOffset e.slotOffset db.slotsBase (efIndexSlotsBase newCapacity)⟩

/-- The move of the slots, read as relocation, reinsertion and new checksums.
Source: `ef_index.c`, `ef_index_rehash_to` -/
lemma rehashMove_eq (db : Db) (newCapacity : ℕ) (es : List HashEntry) :
    db.rehashMove newCapacity es =
      match (db.relocate newCapacity).reinsert (db.shifted newCapacity es) with
      | (.ok, db₁) =>
          (.ok, (({ db₁ with hashEntryCount := (db.shifted newCapacity es).length } :
            Db).efDbMarkMetaDirty.efDbRefreshSlotCrcs).efIndexWriteEnd)
      | (err, db₁) => (err, db₁.efIndexWriteEnd) := rfl

/-- What a move shows: the slots of the old layout, in the new one. -/
structure Rebound (g g' : Geometry) (db db' : Db) : Prop where
  core : db'.core = { db.core with hashCapacity := g'.cap }
  sb : db'.sb = db.sb.setHashCap g'.cap
  slots : (db'.view g').slots = (db.view g).slots

/-- The slots of a geometry begin behind its table.
Source: `ef_index.c`, `ef_index_slots_base` -/
lemma efIndexSlotsBase_eq (g : Geometry) : efIndexSlotsBase g.cap = g.base := by
  unfold efIndexSlotsBase Geometry.base
  omega

/-- The slots are moved, and the new capacity is stored.
Source: `ef_index.c`, `ef_index_rehash_to` -/
lemma rebind_spec (h : (db.view g).Laid g) (hs : db.sb.schemaVersion = schemaVersion)
    (hn : g'.n = g.n) (hcap : g'.cap < 65536) : Rebound g g' db (db.rebind g'.cap) := by
  have hmax : db.sb.maxSlots = g.n := h.maxSlots
  have hsize := g.size_lt
  rw [Geometry.size_eq] at hsize
  have hbytes : db.sb.maxSlots * 64 % u64 = 64 * g.n := by
    rw [hmax, Nat.mul_comm]
    refine Nat.mod_eq_of_lt ?_
    unfold Geometry.undoBase at hsize
    omega
  have hmem : ∀ x, (db.rebind g'.cap).mem x =
      Lib.store (memmove db.mem g'.base g.base (64 * g.n)) 56 2 g'.cap x := by
    intro x
    unfold rebind efSbHashCapacityStore
    rw [if_neg (by omega), efIndexSlotsBase_eq, slotsBase_eq_base h.cap, hbytes]
    rfl
  have hbase := g'.base_ge
  have hlow : ∀ x, x < 64 → memmove db.mem g'.base g.base (64 * g.n) x = db.mem x := fun x hx =>
    memmove_apply_of_outside (by omega)
  have hsb : (db.rebind g'.cap).sb = db.sb.setHashCap g'.cap := by
    have hread : Superblock.read (Lib.store (memmove db.mem g'.base g.base (64 * g.n)) 56 2 g'.cap) =
        db.sb.setHashCap g'.cap := by
      rw [Superblock.read_store_hashCap, Superblock.read_congr hlow, Nat.mod_eq_of_lt hcap]
      rfl
    rw [← hread]
    exact Superblock.read_congr fun x _ => hmem x
  refine ⟨?_, hsb, ?_⟩
  · have hload : (db.rebind g'.cap).hashCapacity = g'.cap := by
      have hcapEq : efSbHashCapacityLoad (db.rebind g'.cap).mem = g'.cap := by
        unfold efSbHashCapacityLoad
        have hsb' : Superblock.read (db.rebind g'.cap).mem = db.sb.setHashCap g'.cap := hsb
        rw [hsb', Superblock.setHashCap_schemaVersion, if_pos (by rw [hs])]
        exact congrArg Superblock.hashCap hsb'
      exact hcapEq
    have hcore : (db.rebind g'.cap).core =
        { db.core with hashCapacity := (db.rebind g'.cap).hashCapacity } := rfl
    rw [hcore, hload]
  · show g'.slots (db.rebind g'.cap).mem = g.slots db.mem
    rw [← slots_memmove db.mem hn]
    refine Geometry.slots_of_agree fun x hx _ => ?_
    rw [hmem]
    exact store_apply_of_outside (by omega)

/-- The offsets of the superblock shifted. -/
def fixSb (g g' : Geometry) (sb : Superblock) : Superblock :=
  ((sb.setFreeListHead (fixNext g.base g'.base sb.freeListHead)).setQueueHead
    (fixNext g.base g'.base sb.queueHead)).setQueueTail (fixNext g.base g'.base sb.queueTail)

/-- The superblock after a move. -/
def movedSb (g g' : Geometry) (sb : Superblock) : Superblock := fixSb g g' (sb.setHashCap g'.cap)

/-- **The move**: the slots of the old layout in the new one, with shifted links, and an empty
table. -/
structure Relocated (g g' : Geometry) (db db' : Db) : Prop where
  core : db'.core = { db.core with hashCapacity := g'.cap }
  sb : db'.sb = movedSb g g' db.sb
  slots : (db'.view g').slots = ((db.view g).relink (fixNext g.base g'.base) g.n).slots

/-- The head of the queue is a word of 64 bits. -/
lemma queueHead_lt (db : Db) : db.sb.queueHead < u64 := load_lt db.mem 40 8

/-- The tail of the queue is a word of 64 bits. -/
lemma queueTail_lt (db : Db) : db.sb.queueTail < u64 := load_lt db.mem 48 8

/-- The buckets are not in the view. -/
lemma view_zero_buckets (db : Db) (g : Geometry) : (db.zero 64 (g.cap * 16)).view g = db.view g := by
  refine view_of_buckets fun x hx => memset_apply_of_outside ?_
  unfold Geometry.base at hx
  omega

/-- The offsets in the superblock are shifted.
Source: `ef_index.c`, `ef_index_fixup_all_offsets` -/
lemma view_fixupSb (g g' : Geometry) (db : Db) :
    (((db.setFreeListHead (fixNext g.base g'.base db.sb.freeListHead)).setQueueHead
      (fixNext g.base g'.base db.sb.queueHead)).setQueueTail
      (fixNext g.base g'.base db.sb.queueTail)).view g' =
        (db.view g').setSb (fixSb g g' db.sb) := by
  have h₁ := Nat.mod_eq_of_lt (fixNext_lt g g' (freeListHead_lt g db))
  have h₂ := Nat.mod_eq_of_lt (fixNext_lt g g' (queueHead_lt db))
  have h₃ := Nat.mod_eq_of_lt (fixNext_lt g g' (queueTail_lt db))
  rw [view_setQueueTail, view_setQueueHead, view_setFreeListHead, View.setSb_setSb,
    View.setSb_setSb, h₂, h₃]
  simp only [View.setSb_sb]
  rw [show fixNext g.base g'.base db.sb.freeListHead % u64 = _ from h₁]
  rfl

/-- The fixup shifts the offsets of the superblock and every link. -/
lemma view_efIndexFixupAllOffsets (g : Geometry) (hcap : db.hashCapacity = g'.cap)
    (hmax : db.sb.maxSlots = g'.n) :
    (db.efIndexFixupAllOffsets g.base g'.base).view g' =
      ((db.view g').setSb (fixSb g g' db.sb)).relink (fixNext g.base g'.base) g'.n := by
  have hq : (db.setFreeListHead (fixNext g.base g'.base db.sb.freeListHead)).sb.queueHead =
      db.sb.queueHead := by
    rw [sb_eq g', view_setFreeListHead]
    rfl
  have ht : ((db.setFreeListHead (fixNext g.base g'.base db.sb.freeListHead)).setQueueHead
      (fixNext g.base g'.base db.sb.queueHead)).sb.queueTail = db.sb.queueTail := by
    rw [sb_eq g', view_setQueueHead, View.setSb_sb, Superblock.setQueueHead_queueTail,
      view_setFreeListHead]
    rfl
  have hn : (((db.setFreeListHead (fixNext g.base g'.base db.sb.freeListHead)).setQueueHead
      (fixNext g.base g'.base db.sb.queueHead)).setQueueTail
      (fixNext g.base g'.base db.sb.queueTail)).sb.maxSlots = g'.n := by
    rw [sb_eq g', view_fixupSb]
    exact hmax
  unfold efIndexFixupAllOffsets
  simp only [efIndexFixupOffset_eq, hq, ht, hn]
  refine (view_fixupSlotsLoop ?_ _ _ le_rfl).trans ?_
  · exact hcap
  · rw [view_fixupSb]

/-- The relocation, with the bases of the geometries. -/
lemma relocate_eq (h : (db.view g).Laid g) :
    db.relocate g'.cap =
      ((db.rebind g'.cap).efIndexFixupAllOffsets g.base g'.base).zero 64 (g'.cap * 16) := by
  unfold relocate
  rw [slotsBase_eq_base h.cap, efIndexSlotsBase_eq]

/-- The relocation: the superblock's offsets and the links are shifted. -/
lemma view_relocate (h : (db.view g).Laid g) (hs : db.sb.schemaVersion = schemaVersion)
    (hn : g'.n = g.n) (hcap : g'.cap < 65536) :
    (db.relocate g'.cap).view g' =
      (((db.rebind g'.cap).view g').setSb (movedSb g g' db.sb)).relink
        (fixNext g.base g'.base) g.n := by
  have hr := rebind_spec h hs hn hcap
  have hmax : db.sb.maxSlots = g.n := h.maxSlots
  have hmax' : (db.rebind g'.cap).sb.maxSlots = g'.n := by
    rw [hr.sb, hn]
    exact hmax
  rw [relocate_eq h, view_zero_buckets,
    view_efIndexFixupAllOffsets g (congrArg Core.hashCapacity hr.core) hmax', hr.sb, hn]
  rfl

/-- After the move and the shift the slots are relocated. -/
lemma Rebound.relocated {db₁ : Db} (hr : Rebound g g' db db₁)
    (hview : db'.view g' =
      ((db₁.view g').setSb (movedSb g g' db.sb)).relink (fixNext g.base g'.base) g.n) :
    Relocated g g' db db' := by
  refine ⟨?_, ?_, ?_⟩
  · have hcore : db'.core = db₁.core := congrArg View.core hview
    rw [hcore, hr.core]
  · exact congrArg View.sb hview
  · rw [hview]
    unfold View.relink
    simp only [View.setSb_slots, hr.slots]

/-- **The relocation** keeps every slot, with its link shifted.
Source: `ef_index.c`, `ef_index_rehash_to` -/
lemma relocate_spec (h : (db.view g).Laid g) (hs : db.sb.schemaVersion = schemaVersion)
    (hn : g'.n = g.n) (hcap : g'.cap < 65536) : Relocated g g' db (db.relocate g'.cap) :=
  (rebind_spec h hs hn hcap).relocated (view_relocate h hs hn hcap)

/-- A relocated handle is bound to the new geometry. -/
lemma Relocated.bound {db' : Db} (hr : Relocated g g' db db') (h : (db.view g).Laid g)
    (hn : g'.n = g.n) (hfile : g'.undoBase ≤ db.fileSize) : (db'.view g').Bound g' where
  cap := congrArg Core.hashCapacity hr.core
  inFile := by
    have hf : db'.fileSize = db.fileSize := congrArg Core.fileSize hr.core
    show g'.undoBase ≤ db'.fileSize
    omega
  writable := (congrArg Core.readonly hr.core).trans h.writable
  maxSlots := by
    have hmax : db.sb.maxSlots = g.n := h.maxSlots
    show db'.sb.maxSlots = g'.n
    rw [hr.sb, hn]
    exact hmax

/-- A cleared table is empty. -/
lemma table_zero (db : Db) {cap p : ℕ} (hp : p < cap) : (db.zero 64 (cap * 16)).table p = none := by
  rw [table_eq_none_iff]
  have h8 : ∀ a, 64 ≤ a → a + 8 ≤ 64 + cap * 16 → load (db.zero 64 (cap * 16)).mem a 8 = 0 :=
    fun a ha ha' => load_eq_zero fun x hx hx' => memset_apply_of_inside (by omega) (by omega)
  have hzero : (db.zero 64 (cap * 16)).entry p = ⟨0, 0⟩ := by
    unfold entry HashEntry.read
    rw [h8 _ (by omega) (by omega), h8 _ (by omega) (by omega)]
  rw [hzero]
  rfl

/-- The relocation leaves the table empty. -/
lemma relocate_table {p : ℕ} (db : Db) (hp : p < g'.cap) : (db.relocate g'.cap).table p = none :=
  table_zero _ hp

/-! ### The new table -/

/-- An insertion writes buckets only.
Source: `ef_index.c`, `ef_index_put_entry` -/
lemma putEntryLoop_still (hpos : 0 < db.hashCapacity) (hcap : db.hashCapacity = g.cap)
    (key off fuel i home : ℕ) (c : HashEntry) :
    (putEntryLoop key off fuel i home c db).2.2.view g = db.view g := by
  induction fuel generalizing i home c db with
  | zero => rfl
  | succ fuel ih =>
      have hlt : i % db.hashCapacity < g.cap := by
        rw [← hcap]
        exact Nat.mod_lt _ hpos
      unfold putEntryLoop
      simp only
      split_ifs
      · rfl
      · exact view_setEntry hlt
      · exact view_setEntry hlt
      · refine (ih ?_ ?_ _ _ _).trans (view_setEntry hlt)
        · exact hpos
        · exact hcap
      · exact ih hpos hcap _ _ _

/-- An insertion touches buckets only. -/
lemma view_efIndexPutEntry (hcap : db.hashCapacity = g.cap) (key off : ℕ) :
    (db.efIndexPutEntry key off).2.2.view g = db.view g := by
  unfold efIndexPutEntry
  by_cases h0 : db.hashCapacity = 0
  · rw [if_pos h0]
  rw [if_neg h0]
  split_ifs
  · rfl
  · exact putEntryLoop_still (by omega) hcap ..

/-- The reinsertion writes buckets only.
Source: `ef_index.c`, `ef_index_rehash_to` -/
lemma view_reinsert (hcap : db.hashCapacity = g.cap) (es : List HashEntry) :
    (db.reinsert es).2.view g = db.view g := by
  induction es generalizing db with
  | nil => rfl
  | cons e es ih =>
      have hview := view_efIndexPutEntry hcap e.keyHash e.slotOffset
      unfold reinsert
      generalize db.efIndexPutEntry e.keyHash e.slotOffset = r at hview ⊢
      obtain ⟨err, added, db₁⟩ := r
      have hcap₁ : db₁.hashCapacity = g.cap :=
        (congrArg (fun v : View => v.core.hashCapacity) hview).trans hcap
      cases err with
      | ok => exact (ih hcap₁).trans hview
      | _ => exact hview

/-- The entries after an insertion are those of the abstract one. -/
lemma PutAs.maps {r : Err × Bool × Db} {r' : RobinHood.Outcome × (ℕ → Option (ℕ × ℕ))}
    (h : PutAs db r r') (k off : ℕ) :
    r.2.2.Maps k off ↔ RobinHood.Mem db.hashCapacity r'.2 (k, off) := by
  unfold Maps
  rw [h.cap, h.table]

/-- What an insertion into a table in order leaves, whatever it returns. -/
lemma Indexed.put_sub (h : db.Indexed) {e : HashEntry} (he : e.Valid) :
    let r := db.efIndexPutEntry e.keyHash e.slotOffset
    r.2.2.Indexed ∧ r.2.2.hashCapacity = db.hashCapacity ∧
      ∀ k off, r.2.2.Maps k off → db.Maps k off ∨ (⟨k, off⟩ : HashEntry) = e := by
  obtain ⟨hk, ho, ho0⟩ := he
  have hput := efIndexPutEntry_eq h hk ho ho0
  have hfuel : db.hashCapacity ≤ 2 * db.hashCapacity := by omega
  refine ⟨⟨?_, ?_, ?_⟩, hput.cap, ?_⟩
  · rw [hput.cap]
    exact h.pos
  · rw [hput.cap]
    exact h.pow
  · unfold TableOk
    rw [hput.cap, hput.table]
    exact RobinHood.put_ok h.ok h.home_lt hfuel
  · intro k off hm
    rw [hput.maps] at hm
    rcases RobinHood.mem_of_mem_put h.ok h.home_lt hfuel hm with hold | hnew
    · exact .inl hold
    · cases hnew
      exact .inr rfl

/-- A successful insertion while a bucket is empty updates the map at its key. -/
lemma Indexed.put_maps (h : db.Indexed) {e : HashEntry} (he : e.Valid) {p : ℕ}
    (hp : p < db.hashCapacity) (hempty : db.table p = none)
    (hok : (db.efIndexPutEntry e.keyHash e.slotOffset).1 = .ok) (k off : ℕ) :
    (db.efIndexPutEntry e.keyHash e.slotOffset).2.2.Maps k off ↔
      (db.Maps k off ∧ k ≠ e.keyHash) ∨ (⟨k, off⟩ : HashEntry) = e := by
  obtain ⟨hk, ho, ho0⟩ := he
  have hput := efIndexPutEntry_eq h hk ho ho0
  have hne : (RobinHood.put db.hashCapacity (efHashHome db.hashCapacity) e.keyHash e.slotOffset
      (2 * db.hashCapacity) (efHashHome db.hashCapacity e.keyHash) (e.keyHash, e.slotOffset)
      db.table).1 ≠ .full := by
    intro hfull
    have hcode := hput.code
    rw [hfull, hok] at hcode
    cases hcode
  have hfuel : db.hashCapacity ≤ 2 * db.hashCapacity := by omega
  have hp' : db.table (p % db.hashCapacity) = none := by
    rw [Nat.mod_eq_of_lt hp]
    exact hempty
  have hmem := RobinHood.put_spec h.ok h.home_lt hfuel hp' hne (k, off)
  rw [hput.maps, hmem]
  cases e
  simp [Maps]

/-- **Reinsertion**, whatever it returns: the table is in order, and its entries are old ones. -/
lemma Indexed.reinsert_sub (h : db.Indexed) {es : List HashEntry} (hes : ∀ e ∈ es, e.Valid) :
    (db.reinsert es).2.Indexed ∧ (db.reinsert es).2.hashCapacity = db.hashCapacity ∧
      ∀ k off, (db.reinsert es).2.Maps k off → db.Maps k off ∨ (⟨k, off⟩ : HashEntry) ∈ es := by
  induction es generalizing db with
  | nil => exact ⟨h, rfl, fun k off hm => .inl hm⟩
  | cons e es ih =>
      have hput := h.put_sub (hes e List.mem_cons_self)
      unfold reinsert
      generalize db.efIndexPutEntry e.keyHash e.slotOffset = r at hput ⊢
      obtain ⟨err, added, db₁⟩ := r
      obtain ⟨h₁, hcap₁, hsub₁⟩ := hput
      have hstop : db₁.Indexed ∧ db₁.hashCapacity = db.hashCapacity ∧
          ∀ k off, db₁.Maps k off → db.Maps k off ∨ (⟨k, off⟩ : HashEntry) ∈ e :: es := by
        refine ⟨h₁, hcap₁, fun k off hm => (hsub₁ k off hm).imp id fun heq => ?_⟩
        rw [heq]
        exact List.mem_cons_self
      cases err with
      | ok =>
          obtain ⟨h₂, hcap₂, hsub₂⟩ := ih h₁ fun e' he' => hes e' (List.mem_cons_of_mem e he')
          refine ⟨h₂, hcap₂.trans hcap₁, fun k off hm => ?_⟩
          rcases hsub₂ k off hm with hm | hm
          · exact hstop.2.2 k off hm
          · exact .inr (List.mem_cons_of_mem e hm)
      | _ => exact hstop

/-- The entries go in one after the other, as into a table. -/
lemma Indexed.reinsert_ok_iff (h : db.Indexed) {es : List HashEntry} (hes : ∀ e ∈ es, e.Valid) :
    (db.reinsert es).1 = .ok ↔ RobinHood.fills db.hashCapacity (efHashHome db.hashCapacity)
      (es.map HashEntry.pair) db.table = true := by
  induction es generalizing db with
  | nil => exact iff_of_true rfl rfl
  | cons e es ih =>
      obtain ⟨hk, ho, ho0⟩ := hes e List.mem_cons_self
      have hes' : ∀ e ∈ es, e.Valid := fun x hx => hes x (List.mem_cons_of_mem e hx)
      obtain ⟨h₁, -, -⟩ := h.put_sub ⟨hk, ho, ho0⟩
      have hput := efIndexPutEntry_eq h hk ho ho0
      unfold reinsert
      rw [List.map_cons]
      unfold RobinHood.fills
      simp only [HashEntry.pair]
      generalize db.efIndexPutEntry e.keyHash e.slotOffset = r at h₁ hput ⊢
      obtain ⟨err, added, db₁⟩ := r
      obtain ⟨hcode, htable, hcap, -⟩ := hput
      simp only at h₁ hcode htable hcap
      generalize RobinHood.put db.hashCapacity (efHashHome db.hashCapacity) e.keyHash e.slotOffset
        (2 * db.hashCapacity) (efHashHome db.hashCapacity e.keyHash) (e.keyHash, e.slotOffset)
        db.table = r' at hcode htable ⊢
      obtain ⟨o, t⟩ := r'
      simp only at htable
      subst htable
      have ih' := ih h₁ hes'
      rw [hcap] at ih'
      cases o with
      | full =>
          cases hcode
          exact iff_of_false (by simp) (by simp)
      | added =>
          cases hcode
          exact ih'
      | updated =>
          cases hcode
          exact ih'


/-- Every entry fills one bucket at most, and the one that finds no place fills none. -/
lemma Indexed.reinsert_occupied (h : db.Indexed) {es : List HashEntry} (hes : ∀ e ∈ es, e.Valid) :
    let filled := RobinHood.occupied db.hashCapacity (db.reinsert es).2.table
    filled ≤ RobinHood.occupied db.hashCapacity db.table + es.length ∧
      ((db.reinsert es).1 ≠ .ok → filled < RobinHood.occupied db.hashCapacity db.table + es.length) := by
  induction es generalizing db with
  | nil => exact ⟨le_rfl, fun herr => absurd rfl herr⟩
  | cons e es ih =>
      obtain ⟨hk, ho, ho0⟩ := hes e List.mem_cons_self
      have hes' : ∀ e ∈ es, e.Valid := fun x hx => hes x (List.mem_cons_of_mem e hx)
      obtain ⟨h₁, -, -⟩ := h.put_sub ⟨hk, ho, ho0⟩
      obtain ⟨hcode, htable, hcap, -⟩ := efIndexPutEntry_eq h hk ho ho0
      have hput := RobinHood.put_occupied h.pos (efHashHome db.hashCapacity) e.keyHash e.slotOffset
        (2 * db.hashCapacity) (efHashHome db.hashCapacity e.keyHash) (e.keyHash, e.slotOffset) db.table
      rw [← htable] at hput
      unfold reinsert
      generalize db.efIndexPutEntry e.keyHash e.slotOffset = r at h₁ hcode hcap hput ⊢
      obtain ⟨err, added, db₁⟩ := r
      simp only at h₁ hcode hcap hput
      have ih' := ih h₁ hes'
      rw [hcap] at ih'
      rw [List.length_cons]
      have hle : RobinHood.occupied db.hashCapacity db₁.table ≤
          RobinHood.occupied db.hashCapacity db.table + 1 := by omega
      have hfull : err ≠ .ok → RobinHood.occupied db.hashCapacity db₁.table =
          RobinHood.occupied db.hashCapacity db.table := by
        intro herr
        rcases hput with ⟨hadd, -⟩ | ⟨-, heq⟩
        · rw [hadd] at hcode
          cases hcode
          exact absurd rfl herr
        · exact heq
      cases err with
      | ok =>
          obtain ⟨hle, hlt⟩ := ih'
          refine ⟨?_, fun herr => ?_⟩
          · simp only
            omega
          · have := hlt herr
            simp only
            omega
      | _ =>
          have heq := hfull (by simp)
          exact ⟨by simp only; omega, fun _ => by simp only; omega⟩

/-- **Reinsertion**, when it succeeds: as long as the table has room for them, all entries are
there. -/
lemma Indexed.reinsert_maps (h : db.Indexed) {es : List HashEntry} (hes : ∀ e ∈ es, e.Valid)
    (hkeys : (es.map HashEntry.keyHash).Nodup) {l : List (ℕ × ℕ)}
    (hl : ∀ k off, db.Maps k off → (k, off) ∈ l) (hroom : l.length + es.length ≤ db.hashCapacity)
    (hnew : ∀ k off, db.Maps k off → k ∉ es.map HashEntry.keyHash)
    (hok : (db.reinsert es).1 = .ok) (k off : ℕ) :
    (db.reinsert es).2.Maps k off ↔ db.Maps k off ∨ (⟨k, off⟩ : HashEntry) ∈ es := by
  induction es generalizing db l with
  | nil => simp [reinsert]
  | cons e es ih =>
      rw [List.map_cons, List.nodup_cons] at hkeys
      rw [List.length_cons] at hroom
      have he := hes e List.mem_cons_self
      obtain ⟨p, hp, hempty⟩ := RobinHood.exists_empty h.ok.unique l (fun x hx => hl x.1 x.2 hx)
        (by omega)
      have hsub := h.put_sub he
      have hmaps := h.put_maps he hp hempty
      unfold reinsert at hok ⊢
      generalize db.efIndexPutEntry e.keyHash e.slotOffset = r at hsub hmaps hok ⊢
      obtain ⟨err, added, db₁⟩ := r
      obtain ⟨h₁, hcap₁, -⟩ := hsub
      cases err with
      | ok =>
          have hmaps₁ : ∀ k off, db₁.Maps k off ↔ db.Maps k off ∨ (⟨k, off⟩ : HashEntry) = e := by
            intro k off
            rw [hmaps rfl]
            refine or_congr_left ⟨fun hm => hm.1, fun hm => ⟨hm, fun hk => ?_⟩⟩
            exact hnew k off hm (hk ▸ List.mem_cons_self)
          have hrec := ih h₁ (l := (e.keyHash, e.slotOffset) :: l)
            (fun e' he' => hes e' (List.mem_cons_of_mem e he')) hkeys.2 ?_ ?_ ?_ hok
          · rw [hrec, hmaps₁, List.mem_cons, or_assoc]
          · intro k off hm
            rcases (hmaps₁ k off).mp hm with hm | rfl
            · exact List.mem_cons_of_mem _ (hl k off hm)
            · exact List.mem_cons_self
          · rw [List.length_cons, hcap₁]
            omega
          · intro k off hm
            rcases (hmaps₁ k off).mp hm with hm | rfl
            · exact fun hmem => hnew k off hm (List.mem_cons_of_mem _ hmem)
            · exact hkeys.1
      | _ => cases hok

/-! ### The critical section -/

/-- A new checksum leaves the table alone. -/
lemma index_refreshSlotCrc (db : Db) (i : ℕ) : (db.refreshSlotCrc i).index = db.index := by
  unfold refreshSlotCrc
  split_ifs
  · refine index_efSlotHeaderCrcStore i ?_
    unfold slotPtr
    omega
  · rfl

/-- The new checksums leave the table alone.
Source: `endfields.c`, `ef_db_refresh_slot_crcs` -/
lemma index_efDbRefreshSlotCrcs (db : Db) : db.efDbRefreshSlotCrcs.index = db.index := by
  have hloop : ∀ k, (db.refreshSlotCrcsLoop k).index = db.index := by
    intro k
    induction k with
    | zero => rfl
    | succ k ih => exact (index_refreshSlotCrc _ k).trans ih
  unfold efDbRefreshSlotCrcs
  split_ifs
  · exact hloop _
  · rfl

/-- What the critical section of a rehash leaves: `db` with its slots moved, its links shifted and
the entries `es` inserted into a new table; with the result `ok` every checksum is computed
again. -/
structure Moved (g g' : Geometry) (db : Db) (es : List HashEntry) (err : Err) (db' : Db) : Prop where
  core : db'.core = { db.core with hashCapacity := g'.cap }
  sb : db'.sb = (movedSb g g' db.sb).setIndexWriteLock 0
  status : ∀ i, ((db'.view g').slots i).status = ((db.view g).slots i).status
  payload : ∀ i, ((db'.view g').slots i).payload = ((db.view g).slots i).payload
  next : ∀ i, i < g.n → ((db'.view g').slots i).nextOffset =
    fixNext g.base g'.base ((db.view g).slots i).nextOffset
  crc : err = .ok → db.sb.slotCrc = true → ∀ i, i < g.n →
    efSlotStatusHasCrc ((db'.view g').slots i).status = true →
      ((db'.view g').slots i).headerCrc = efSlotHeaderCrcCompute i ((db'.view g').slots i)
  indexed : db'.Indexed
  sub : ∀ k off, db'.Maps k off → ∃ i, i < g.n ∧ off = g'.ptr i ∧ (⟨k, g.ptr i⟩ : HashEntry) ∈ es
  all : err = .ok → (es.map HashEntry.keyHash).Nodup → es.length ≤ g'.cap →
    ∀ k i, i < g.n → (⟨k, g.ptr i⟩ : HashEntry) ∈ es → db'.Maps k (g'.ptr i)
  count : err = .ok → db'.hashEntryCount = es.length

/-- The entries are shifted like links. -/
lemma shifted_eq (h : (db.view g).Laid g) (es : List HashEntry) :
    db.shifted g'.cap es = es.map fun e => ⟨e.keyHash, fixNext g.base g'.base e.slotOffset⟩ := by
  unfold shifted
  refine List.map_congr_left fun e _ => ?_
  rw [slotsBase_eq_base h.cap, efIndexSlotsBase_eq, efIndexFixupOffset_eq]

/-- An entry that leads to a slot, shifted. -/
lemma mem_shifted {es : List HashEntry} {k off : ℕ} (h : (db.view g).Laid g) (hn : g'.n = g.n)
    (hes : ∀ e ∈ es, e.keyHash < u64 ∧ ∃ i, i < g.n ∧ e.slotOffset = g.ptr i) :
    (⟨k, off⟩ : HashEntry) ∈ db.shifted g'.cap es ↔
      ∃ i, i < g.n ∧ off = g'.ptr i ∧ (⟨k, g.ptr i⟩ : HashEntry) ∈ es := by
  rw [shifted_eq h, List.mem_map]
  constructor
  · rintro ⟨⟨k', o⟩, he, heq⟩
    obtain ⟨-, i, hi, hoff⟩ := hes _ he
    simp only at hoff
    subst hoff
    simp only [HashEntry.mk.injEq] at heq
    obtain ⟨rfl, rfl⟩ := heq
    exact ⟨i, hi, fixNext_ptr hn hi, he⟩
  · rintro ⟨i, hi, rfl, he⟩
    exact ⟨_, he, by rw [fixNext_ptr hn hi]⟩

/-- Shifted entries of slots can be inserted. -/
lemma valid_shifted {es : List HashEntry} (h : (db.view g).Laid g) (hn : g'.n = g.n)
    (hes : ∀ e ∈ es, e.keyHash < u64 ∧ ∃ i, i < g.n ∧ e.slotOffset = g.ptr i) :
    ∀ e ∈ db.shifted g'.cap es, e.Valid := by
  intro e he
  rw [shifted_eq h, List.mem_map] at he
  obtain ⟨e₀, he₀, rfl⟩ := he
  obtain ⟨hkey, i, hi, hoff⟩ := hes e₀ he₀
  refine ⟨hkey, ?_, ?_⟩
  · rw [hoff]
    exact fixNext_lt g g' (g.ptr_lt_u64 hi)
  · rw [hoff, fixNext_ptr hn hi]
    exact g'.ptr_ne_zero i

/-- The slots after a move, with or without new checksums. -/
structure MovedSlots (g g' : Geometry) (v v' : View) (fresh : Bool) : Prop where
  status : ∀ i, (v'.slots i).status = (v.slots i).status
  payload : ∀ i, (v'.slots i).payload = (v.slots i).payload
  next : ∀ i, i < g.n → (v'.slots i).nextOffset = fixNext g.base g'.base (v.slots i).nextOffset
  crc : fresh = true → ∀ i, i < g.n → efSlotStatusHasCrc (v'.slots i).status = true →
    (v'.slots i).headerCrc = efSlotHeaderCrcCompute i (v'.slots i)

/-- Slots with shifted links, and no new checksums. -/
lemma movedSlots_relink {v v' : View} (h : v'.slots = (v.relink (fixNext g.base g'.base) g.n).slots) :
    MovedSlots g g' v v' false := by
  have hslot : ∀ i, v'.slots i = if i < g.n then
      { v.slots i with nextOffset := fixNext g.base g'.base (v.slots i).nextOffset }
      else v.slots i := fun i => by rw [h]; rfl
  refine ⟨fun i => ?_, fun i => ?_, fun i hi => ?_, fun hf => absurd hf (by simp)⟩
  · rw [hslot]
    split_ifs <;> rfl
  · rw [hslot]
    split_ifs <;> rfl
  · rw [hslot, if_pos hi]

/-- Moved slots with new checksums. -/
lemma movedSlots_reseal {v v₁ v' : View} {fresh : Bool} (h : MovedSlots g g' v v₁ fresh)
    (hcrc : v₁.sb.slotCrc = true) (h' : v'.slots = (v₁.reseal g.n).slots) :
    MovedSlots g g' v v' true := by
  have hslot : ∀ i, v'.slots i = if i < g.n ∧ efSlotStatusHasCrc (v₁.slots i).status = true then
      (v₁.slots i).sealed true i else v₁.slots i := fun i => by
    rw [h']
    unfold View.reseal
    simp only [hcrc]
  have hkeep : ∀ i, (v'.slots i).status = (v₁.slots i).status ∧
      (v'.slots i).payload = (v₁.slots i).payload ∧
      (v'.slots i).nextOffset = (v₁.slots i).nextOffset := by
    intro i
    rw [hslot]
    split_ifs
    · exact ⟨Slot.sealed_status .., Slot.sealed_payload .., Slot.sealed_nextOffset ..⟩
    · exact ⟨rfl, rfl, rfl⟩
  refine ⟨fun i => ?_, fun i => ?_, fun i hi => ?_, fun _ i hi hc => ?_⟩
  · rw [(hkeep i).1, h.status]
  · rw [(hkeep i).2.1, h.payload]
  · rw [(hkeep i).2.2, h.next i hi]
  · rw [(hkeep i).1] at hc
    rw [hslot, if_pos ⟨hi, hc⟩]
    rfl

/-- The entries `es` inserted, with the result `err`, into the new table of a moved handle. -/
structure Filled (g g' : Geometry) (db : Db) (es : List HashEntry) (err : Err) (db' : Db) : Prop where
  moved : Relocated g g' db db'
  indexed : db'.Indexed
  sub : ∀ k off, db'.Maps k off → ∃ i, i < g.n ∧ off = g'.ptr i ∧ (⟨k, g.ptr i⟩ : HashEntry) ∈ es
  all : err = .ok → (es.map HashEntry.keyHash).Nodup → es.length ≤ g'.cap →
    ∀ k i, i < g.n → (⟨k, g.ptr i⟩ : HashEntry) ∈ es → db'.Maps k (g'.ptr i)

/-- A handle that shows the same is relocated too. -/
lemma Relocated.congr {db₁ : Db} (hr : Relocated g g' db db₁) (hview : db'.view g' = db₁.view g') :
    Relocated g g' db db' where
  core := (congrArg View.core hview).trans hr.core
  sb := (congrArg View.sb hview).trans hr.sb
  slots := (congrArg View.slots hview).trans hr.slots

/-- A table of empty buckets is in order and has no entry. -/
lemma indexed_of_empty (hpos : 0 < db.hashCapacity)
    (hpow : db.hashCapacity &&& (db.hashCapacity - 1) = 0)
    (h : ∀ p, p < db.hashCapacity → db.table p = none) :
    db.Indexed ∧ ∀ k off, ¬ db.Maps k off := by
  have hnone : ∀ i e, db.table (i % db.hashCapacity) ≠ some e := by
    intro i e he
    rw [h _ (Nat.mod_lt i hpos)] at he
    cases he
  refine ⟨⟨hpos, hpow, fun i e he => absurd he (hnone _ _), fun i j e e' he => absurd he
      (hnone _ _)⟩, ?_⟩
  rintro k off ⟨i, hi⟩
  exact hnone i _ hi

/-- Entries that are reinserted after the relocation are in the new table as far as they fit. -/
lemma Relocated.filled {db₂ : Db} (hr : Relocated g g' db db₂) (hpos : 0 < g'.cap)
    (hpow : g'.cap &&& (g'.cap - 1) = 0) (htable : ∀ p, p < g'.cap → db₂.table p = none)
    {es es' : List HashEntry} (hkeys : es'.map HashEntry.keyHash = es.map HashEntry.keyHash)
    (hvalid : ∀ e ∈ es', e.Valid)
    (hmem : ∀ k off, (⟨k, off⟩ : HashEntry) ∈ es' ↔
      ∃ i, i < g.n ∧ off = g'.ptr i ∧ (⟨k, g.ptr i⟩ : HashEntry) ∈ es) :
    Filled g g' db es (db₂.reinsert es').1 (db₂.reinsert es').2 := by
  have hcap₂ : db₂.hashCapacity = g'.cap := congrArg Core.hashCapacity hr.core
  rw [← hcap₂] at hpos hpow htable
  obtain ⟨h₂, hnone⟩ := indexed_of_empty hpos hpow htable
  obtain ⟨h₃, -, hsub⟩ := h₂.reinsert_sub hvalid
  have hview := view_reinsert hcap₂ es'
  have hlen : es'.length = es.length := by
    have hl := congrArg List.length hkeys
    rwa [List.length_map, List.length_map] at hl
  refine ⟨hr.congr hview, h₃, fun k off hm => ?_, fun hok hnd hroom k i hi he => ?_⟩
  · rcases hsub k off hm with hold | hnew
    · exact absurd hold (hnone k off)
    · exact (hmem k off).mp hnew
  · have hmaps := h₂.reinsert_maps (l := []) hvalid (by rw [hkeys]; exact hnd)
      (fun k off hm => absurd hm (hnone k off)) (by rw [List.length_nil, hcap₂]; omega)
      (fun k off hm => absurd hm (hnone k off)) hok k (g'.ptr i)
    exact hmaps.mpr (.inr ((hmem _ _).mpr ⟨i, hi, rfl, he⟩))

/-- The end of a section, since schema v5: the lock is given back.
Source: `ef_index.c`, `ef_index_write_end` -/
lemma efIndexWriteEnd_of_v5 (g : Geometry) (hs : db.sb.schemaVersion = schemaVersion) :
    db.efIndexWriteEnd.core = db.core ∧ db.efIndexWriteEnd.sb = db.sb.setIndexWriteLock 0 ∧
      (db.efIndexWriteEnd.view g).slots = (db.view g).slots := by
  have hview := (efIndexWriteEnd_spec g db).1
  have hs' : (db.view g).sb.schemaVersion = schemaVersion := hs
  have hunheld : (db.view g).unheld = (db.view g).setSb ((db.view g).sb.setIndexWriteLock 0) := by
    unfold View.unheld
    rw [if_neg (by rw [hs']; omega)]
  rw [hunheld] at hview
  refine ⟨?_, ?_, ?_⟩
  · exact congrArg View.core hview
  · exact congrArg View.sb hview
  · rw [hview]
    rfl

/-- The end of a section that moved the slots. -/
lemma Filled.writeEnd {es : List HashEntry} {err : Err} {db₃ db₄ : Db} {fresh : Bool}
    (hf : Filled g g' db es err db₃) (hs : db.sb.schemaVersion = schemaVersion)
    (hcore : db₄.core = db₃.core) (hsb : db₄.sb = db₃.sb)
    (hslots : MovedSlots g g' (db.view g) (db₄.view g') fresh)
    (hfresh : err = .ok → db.sb.slotCrc = true → fresh = true)
    (hindexed : db₄.Indexed) (hmaps : ∀ k off, db₄.Maps k off ↔ db₃.Maps k off)
    (hcount : err = .ok → db₄.hashEntryCount = es.length) :
    Moved g g' db es err db₄.efIndexWriteEnd := by
  have hix := (efIndexWriteEnd_spec g' db₄).2
  have hs₄ : db₄.sb.schemaVersion = schemaVersion := by
    rw [hsb, hf.moved.sb]
    exact hs
  obtain ⟨hcore', hsb', hslots'⟩ := efIndexWriteEnd_of_v5 g' hs₄
  have hm := maps_of_index hix hindexed.pos
  refine ⟨?_, ?_, ?_, ?_, ?_, ?_, Indexed.of_index hix hindexed, ?_, ?_, ?_⟩
  · rw [hcore', hcore, hf.moved.core]
  · rw [hsb', hsb, hf.moved.sb]
  · rw [hslots']
    exact hslots.status
  · rw [hslots']
    exact hslots.payload
  · rw [hslots']
    exact hslots.next
  · rw [hslots']
    exact fun hok hcrc => hslots.crc (hfresh hok hcrc)
  · intro k off hk
    exact hf.sub k off ((hmaps k off).mp ((hm k off).mp hk))
  · intro hok hnd hroom k i hi he
    exact (hm k _).mpr ((hmaps k _).mpr (hf.all hok hnd hroom k i hi he))
  · intro hok
    exact (congrArg Index.count hix).trans (hcount hok)

/-- Checksums computed again over moved slots. -/
lemma Relocated.refresh {db₃ : Db} (hr : Relocated g g' db db₃) (hb : (db₃.view g').Bound g')
    (hn : g'.n = g.n) :
    db₃.efDbRefreshSlotCrcs.core = db₃.core ∧ db₃.efDbRefreshSlotCrcs.sb = db₃.sb ∧
      MovedSlots g g' (db.view g) (db₃.efDbRefreshSlotCrcs.view g') db.sb.slotCrc := by
  have hview := view_efDbRefreshSlotCrcs hb
  have hcrc : (db₃.view g').sb.slotCrc = db.sb.slotCrc := by
    have hflags : db₃.sb.flags = db.sb.flags := by
      rw [hr.sb]
      rfl
    exact congrArg (Nat.testBit · flagSlotCrcBit) hflags
  have hslots := movedSlots_relink hr.slots
  cases hc : db.sb.slotCrc with
  | true =>
      rw [hcrc, if_pos hc, hn] at hview
      exact ⟨congrArg View.core hview, congrArg View.sb hview,
        movedSlots_reseal hslots (hcrc.trans hc) (congrArg View.slots hview)⟩
  | false =>
      rw [hcrc, if_neg (by simp [hc])] at hview
      rw [← hview] at hslots
      exact ⟨congrArg View.core hview, congrArg View.sb hview, hslots⟩

/-- **The critical section**. -/
lemma rehashMove_spec (h : (db.view g).Laid g) (hs : db.sb.schemaVersion = schemaVersion)
    (hn : g'.n = g.n) (hcap : g'.cap < 65536) (hpos : 0 < g'.cap)
    (hpow : g'.cap &&& (g'.cap - 1) = 0) (hfile : g'.undoBase ≤ db.fileSize) {es : List HashEntry}
    (hes : ∀ e ∈ es, e.keyHash < u64 ∧ ∃ i, i < g.n ∧ e.slotOffset = g.ptr i) :
    Moved g g' db es (db.rehashMove g'.cap es).1 (db.rehashMove g'.cap es).2 := by
  have hr := relocate_spec h hs hn hcap
  have htable : ∀ p, p < g'.cap → (db.relocate g'.cap).table p = none := fun p => relocate_table db
  have hkeys : (db.shifted g'.cap es).map HashEntry.keyHash = es.map HashEntry.keyHash := by
    unfold shifted
    rw [List.map_map]
    rfl
  have hvalid : ∀ e ∈ db.shifted g'.cap es, e.Valid := valid_shifted h hn hes
  have hmem : ∀ k off, (⟨k, off⟩ : HashEntry) ∈ db.shifted g'.cap es ↔
      ∃ i, i < g.n ∧ off = g'.ptr i ∧ (⟨k, g.ptr i⟩ : HashEntry) ∈ es :=
    fun k off => mem_shifted h hn hes
  have hlen : (db.shifted g'.cap es).length = es.length := List.length_map ..
  rw [rehashMove_eq]
  generalize db.relocate g'.cap = db₂ at hr htable ⊢
  generalize db.shifted g'.cap es = es' at hkeys hvalid hmem hlen ⊢
  have hf := hr.filled hpos hpow htable hkeys hvalid hmem
  generalize db₂.reinsert es' = r at hf ⊢
  obtain ⟨err, db₃⟩ := r
  simp only at hf
  have hfail : err ≠ .ok → Moved g g' db es err db₃.efIndexWriteEnd := fun herr =>
    hf.writeEnd hs rfl rfl (movedSlots_relink hf.moved.slots) (fun hok => absurd hok herr) hf.indexed
      (fun _ _ => Iff.rfl) (fun hok => absurd hok herr)
  cases err with
  | ok =>
      have hb := hf.moved.bound h hn hfile
      simp only
      generalize hdb₄ : ({ db₃ with hashEntryCount := es'.length } : Db).efDbMarkMetaDirty = db₄
      have hview₄ : db₄.view g' = db₃.view g' := by
        rw [← hdb₄]
        rfl
      have hf₄ : Filled g g' db es .ok db₄ := by
        subst hdb₄
        exact ⟨hf.moved.congr rfl, hf.indexed.congr rfl rfl, hf.sub, hf.all⟩
      have hcount₄ : db₄.hashEntryCount = es.length := by
        rw [← hlen, ← hdb₄]
        rfl
      obtain ⟨hcore, hsb, hslots⟩ := hf₄.moved.refresh (by rw [hview₄]; exact hb) hn
      have hix := index_efDbRefreshSlotCrcs db₄
      exact hf₄.writeEnd hs hcore hsb hslots (fun _ hc => hc) (Indexed.of_index hix hf₄.indexed)
        (maps_of_index hix hf₄.indexed.pos) fun _ => (congrArg Index.count hix).trans hcount₄
  | _ => exact hfail (by simp)

/-- The end of a section that moved the slots, as far as the slots and the superblock go. -/
lemma Relocated.leave {db₁ db₂ : Db} {fresh : Bool} (hr : Relocated g g' db db₁)
    (hb : (db₁.view g').Bound g') (hs : db.sb.schemaVersion = schemaVersion)
    (hcore : db₂.core = db₁.core) (hsb : db₂.sb = db₁.sb)
    (hslots : MovedSlots g g' (db.view g) (db₂.view g') fresh) :
    (db₂.efIndexWriteEnd.view g').Bound g' ∧
      db₂.efIndexWriteEnd.sb = (movedSb g g' db.sb).setIndexWriteLock 0 ∧
      MovedSlots g g' (db.view g) (db₂.efIndexWriteEnd.view g') fresh := by
  have hs₂ : db₂.sb.schemaVersion = schemaVersion := by
    rw [hsb, hr.sb]
    exact hs
  obtain ⟨hcore', hsb', hslots'⟩ := efIndexWriteEnd_of_v5 g' hs₂
  have hcore₁ := hcore'.trans hcore
  have hsb₁ : db₂.efIndexWriteEnd.sb = (movedSb g g' db.sb).setIndexWriteLock 0 := by
    rw [hsb', hsb, hr.sb]
  generalize db₂.efIndexWriteEnd = db₃ at hcore₁ hsb₁ hslots' ⊢
  refine ⟨?_, hsb₁, ⟨fun i => ?_, fun i => ?_, fun i hi => ?_, fun hf i hi => ?_⟩⟩
  · refine hb.congr (congrArg Core.hashCapacity hcore₁) (congrArg Core.fileSize hcore₁)
      (congrArg Core.readonly hcore₁) ?_
    show db₃.sb.maxSlots = db₁.sb.maxSlots
    rw [hsb₁, hr.sb]
    rfl
  · rw [hslots', hslots.status]
  · rw [hslots', hslots.payload]
  · rw [hslots', hslots.next i hi]
  · rw [hslots']
    exact hslots.crc hf i hi

/-- What a critical section leaves of the slots, whatever the entries of the table are and whatever
it returns. -/
lemma rehashMove_slots (h : (db.view g).Laid g) (hs : db.sb.schemaVersion = schemaVersion)
    (hn : g'.n = g.n) (hcap : g'.cap < 65536) (hfile : g'.undoBase ≤ db.fileSize)
    (es : List HashEntry) :
    let r := db.rehashMove g'.cap es
    (r.2.view g').Bound g' ∧ r.2.sb = (movedSb g g' db.sb).setIndexWriteLock 0 ∧
      ∃ fresh, MovedSlots g g' (db.view g) (r.2.view g') fresh ∧
        (r.1 = .ok → fresh = db.sb.slotCrc) := by
  have hr := relocate_spec h hs hn hcap
  rw [rehashMove_eq]
  generalize db.relocate g'.cap = db₂ at hr ⊢
  generalize db.shifted g'.cap es = es'
  have hview := view_reinsert (congrArg Core.hashCapacity hr.core) es'
  generalize db₂.reinsert es' = r at hview ⊢
  obtain ⟨err, db₃⟩ := r
  have hr₃ : Relocated g g' db db₃ := hr.congr hview
  have hb₃ := hr₃.bound h hn hfile
  cases err with
  | ok =>
      simp only
      generalize hdb₄ : ({ db₃ with hashEntryCount := es'.length } : Db).efDbMarkMetaDirty = db₄
      have hview₄ : db₄.view g' = db₃.view g' := by
        rw [← hdb₄]
        rfl
      have hr₄ : Relocated g g' db db₄ := hr₃.congr hview₄
      have hb₄ : (db₄.view g').Bound g' := hr₄.bound h hn hfile
      obtain ⟨hcore, hsb, hslots⟩ := hr₄.refresh hb₄ hn
      obtain ⟨hb, hsb', hslots'⟩ := hr₄.leave hb₄ hs hcore hsb hslots
      exact ⟨hb, hsb', _, hslots', fun _ => rfl⟩
  | _ =>
      obtain ⟨hb, hsb, hslots⟩ := hr₃.leave hb₃ hs rfl rfl (movedSlots_relink hr₃.slots)
      exact ⟨hb, hsb, false, hslots, fun hok => (by cases hok)⟩

/-- The critical section succeeds exactly if the entries go into an empty table. -/
lemma rehashMove_ok_iff (h : (db.view g).Laid g) (hs : db.sb.schemaVersion = schemaVersion)
    (hn : g'.n = g.n) (hcap : g'.cap < 65536) (hpos : 0 < g'.cap)
    (hpow : g'.cap &&& (g'.cap - 1) = 0) {es : List HashEntry}
    (hes : ∀ e ∈ es, e.keyHash < u64 ∧ ∃ i, i < g.n ∧ e.slotOffset = g.ptr i) :
    (db.rehashMove g'.cap es).1 = .ok ↔
      RobinHood.fills g'.cap (efHashHome g'.cap) (es.map HashEntry.pair) (fun _ => none) = true := by
  have hr := relocate_spec h hs hn hcap
  have htable : ∀ p, p < g'.cap → (db.relocate g'.cap).table p = none := fun p => relocate_table db
  have hvalid : ∀ e ∈ db.shifted g'.cap es, e.Valid := valid_shifted h hn hes
  have hpairs : (db.shifted g'.cap es).map HashEntry.pair =
      (es.map HashEntry.pair).map (Prod.map id (fixNext g.base g'.base)) := by
    rw [shifted_eq h, List.map_map, List.map_map]
    rfl
  rw [rehashMove_eq]
  generalize db.relocate g'.cap = db₂ at hr htable ⊢
  generalize db.shifted g'.cap es = es' at hvalid hpairs ⊢
  have hcap₂ : db₂.hashCapacity = g'.cap := congrArg Core.hashCapacity hr.core
  have hempty : RobinHood.MapOf g'.cap (fixNext g.base g'.base) (fun _ => none) db₂.table := by
    intro i
    rw [htable _ (Nat.mod_lt i hpos)]
    rfl
  rw [← hcap₂] at htable hpos hpow
  have hiff := (indexed_of_empty hpos hpow htable).1.reinsert_ok_iff hvalid
  rw [hcap₂, hpairs, RobinHood.fills_map _ hempty] at hiff
  rw [← hiff]
  generalize db₂.reinsert es' = r
  obtain ⟨err, db₃⟩ := r
  cases err with
  | _ => rfl

/-- The critical section fills no more buckets than it has entries to insert, and fewer if it
fails. -/
lemma rehashMove_occupied (h : (db.view g).Laid g) (hs : db.sb.schemaVersion = schemaVersion)
    (hn : g'.n = g.n) (hcap : g'.cap < 65536) (hpos : 0 < g'.cap)
    (hpow : g'.cap &&& (g'.cap - 1) = 0) {es : List HashEntry}
    (hes : ∀ e ∈ es, e.keyHash < u64 ∧ ∃ i, i < g.n ∧ e.slotOffset = g.ptr i) :
    let r := db.rehashMove g'.cap es
    RobinHood.occupied g'.cap r.2.table ≤ es.length ∧
      (r.1 ≠ .ok → RobinHood.occupied g'.cap r.2.table < es.length) := by
  have hr := relocate_spec h hs hn hcap
  have htable : ∀ p, p < g'.cap → (db.relocate g'.cap).table p = none := fun p => relocate_table db
  have hvalid : ∀ e ∈ db.shifted g'.cap es, e.Valid := valid_shifted h hn hes
  have hlen : (db.shifted g'.cap es).length = es.length := List.length_map ..
  rw [rehashMove_eq]
  generalize db.relocate g'.cap = db₂ at hr htable ⊢
  generalize db.shifted g'.cap es = es' at hvalid hlen ⊢
  have hcap₂ : db₂.hashCapacity = g'.cap := congrArg Core.hashCapacity hr.core
  have hempty : RobinHood.occupied g'.cap db₂.table = 0 := by
    unfold RobinHood.occupied
    rw [Finset.card_eq_zero, Finset.filter_eq_empty_iff]
    intro p hp
    rw [htable p (Finset.mem_range.mp hp)]
    simp
  rw [← hcap₂] at htable hpos hpow
  obtain ⟨hindexed, -⟩ := indexed_of_empty hpos hpow htable
  have hcount := hindexed.reinsert_occupied hvalid
  obtain ⟨-, hcap₃, -⟩ := hindexed.reinsert_sub hvalid
  rw [hcap₂, hempty, hlen, Nat.zero_add] at hcount
  generalize db₂.reinsert es' = r at hcount hcap₃ ⊢
  obtain ⟨err, db₃⟩ := r
  simp only at hcount hcap₃
  have hsame : ∀ db₄ : Db, db₄.index.entries = db₃.index.entries → db₄.hashCapacity = db₃.hashCapacity →
      RobinHood.occupied g'.cap db₄.table = RobinHood.occupied g'.cap db₃.table := by
    intro db₄ hent hcap₄
    refine RobinHood.occupied_congr fun p hp => ?_
    have hp₃ : p < db₃.hashCapacity := by omega
    have hentry := congrFun hent p
    rw [index_entries hp₃, index_entries (by omega)] at hentry
    unfold table
    rw [hentry]
  have hend : ∀ db₄ : Db, db₄.efIndexWriteEnd.index = db₄.index := fun db₄ =>
    (efIndexWriteEnd_spec g' db₄).2
  cases err with
  | ok =>
      simp only
      have hix := hend
          ({ db₃ with hashEntryCount := es'.length } : Db).efDbMarkMetaDirty.efDbRefreshSlotCrcs
      rw [index_efDbRefreshSlotCrcs] at hix
      rw [hsame _ ((congrArg Index.entries hix).trans rfl) ((congrArg Index.cap hix).trans rfl)]
      exact hcount
  | _ =>
      have hix := hend db₃
      simp only
      rw [hsame _ (congrArg Index.entries hix) (congrArg Index.cap hix)]
      exact hcount

/-! ### The rehash -/

/-- The image of a handle resized, with the superblock, the table and the slots as they were. -/
structure Resized (g : Geometry) (db : Db) (size : ℕ) (db' : Db) : Prop where
  core : db'.core = { db.core with fileSize := size, mapCapacity := db'.core.mapCapacity }
  sb : db'.sb = db.sb
  slots : (db'.view g).slots = (db.view g).slots
  index : db'.index = db.index

/-- A file is made larger, or the call fails. -/
lemma efPortGrowFile_spec (h : (db.view g).Bound g) (size : ℕ) :
    (db.efPortGrowFile size).1 ≠ .ok ∨
      ((db.efPortGrowFile size).1 = .ok ∧ Resized g db size (db.efPortGrowFile size).2) := by
  have hfile : g.undoBase ≤ db.fileSize := h.inFile
  have hbase := slotsBase_eq_base h.cap
  have hge := g.base_ge
  unfold efPortGrowFile
  by_cases hle : size ≤ db.fileSize
  · rw [if_pos hle]
    exact .inl (by simp)
  rw [if_neg hle]
  rcases db.env.growFileErr with _ | ⟨err, herr⟩
  · have hout : ∀ x, x < g.undoBase →
        memset db.mem db.fileSize 0 (size - db.fileSize) x = db.mem x := fun x hx =>
      memset_apply_of_outside (by omega)
    have hub : g.base ≤ g.undoBase := by
      unfold Geometry.undoBase
      omega
    refine .inr ⟨rfl, rfl, ?_, ?_, ?_⟩
    · exact Superblock.read_congr fun x hx => hout x (by omega)
    · exact Geometry.slots_of_agree fun x _ hx => hout x hx
    · have hix : (db.zero db.fileSize (size - db.fileSize)).index = db.index :=
        index_of_agree fun x _ hx => hout x (by rw [hbase] at hx; omega)
      exact hix
  · exact .inl herr

/-- What a rehash that moves the slots leaves, with the result `err`: the slots in the new layout,
and a table in order whose entries are old ones; with the result `ok`, and room for them, all of
them. -/
structure Rehashed (g g' : Geometry) (db : Db) (err : Err) (db' : Db) : Prop where
  core : db'.core = { db.core with
    hashCapacity := g'.cap
    fileSize := g'.size
    mapCapacity := db'.core.mapCapacity
    contention := db'.core.contention }
  sb : db'.sb = movedSb g g' db.sb
  status : ∀ i, ((db'.view g').slots i).status = ((db.view g).slots i).status
  payload : ∀ i, ((db'.view g').slots i).payload = ((db.view g).slots i).payload
  next : ∀ i, i < g.n → ((db'.view g').slots i).nextOffset =
    fixNext g.base g'.base ((db.view g).slots i).nextOffset
  crc : err = .ok → db.sb.slotCrc = true → ∀ i, i < g.n →
    efSlotStatusHasCrc ((db'.view g').slots i).status = true →
      ((db'.view g').slots i).headerCrc = efSlotHeaderCrcCompute i ((db'.view g').slots i)
  indexed : db'.Indexed
  sub : ∀ k off, db'.Maps k off → ∃ i, i < g.n ∧ off = g'.ptr i ∧ db.Maps k (g.ptr i)
  all : err = .ok → db.TableReadable → (db.liveEntries db.hashCapacity).length ≤ g'.cap →
    ∀ k i, i < g.n → db.Maps k (g.ptr i) → db'.Maps k (g'.ptr i)
  count : err = .ok → db'.hashEntryCount = (db.liveEntries db.hashCapacity).length

/-- A rehashed handle is bound to the new geometry. -/
lemma Rehashed.bound {err : Err} (hr : Rehashed g g' db err db') (h : (db.view g).Bound g)
    (hn : g'.n = g.n) : (db'.view g').Bound g' where
  cap := congrArg Core.hashCapacity hr.core
  inFile := by
    have hf : db'.fileSize = g'.size := congrArg Core.fileSize hr.core
    show g'.undoBase ≤ db'.fileSize
    rw [hf, Geometry.size_eq]
    omega
  writable := (congrArg Core.readonly hr.core).trans h.writable
  maxSlots := by
    have hmax : db.sb.maxSlots = g.n := h.maxSlots
    show db'.sb.maxSlots = g'.n
    rw [hr.sb, hn]
    exact hmax

/-- The lock of the index does not matter to the shift of the superblock's offsets. -/
lemma movedSb_held {sb : Superblock} (hfree : sb.indexWriteLock = 0) :
    (movedSb g g' (sb.setIndexWriteLock 1)).setIndexWriteLock 0 = movedSb g g' sb := by
  cases sb
  simp only at hfree
  subst hfree
  rfl

/-- The superblock of the handle that the slots are moved on: the lock of the index is held. -/
lemma Resized.sb_held {w : View} {db₀ db₁ : Db} {size : ℕ} (hres : Resized g db₀ size db₁)
    (hs : db.sb.schemaVersion = schemaVersion) (hstill : View.Still (db.view g) w)
    (hview : db₀.view g = w.held) : db₁.sb = db.sb.setIndexWriteLock 1 := by
  have hsbw : w.sb = db.sb := hstill.sb
  have hsb₀ : db₀.sb = w.held.sb := congrArg View.sb hview
  rw [hres.sb, hsb₀]
  unfold View.held
  rw [hsbw, hs, if_neg (by simp)]
  rfl

/-- The critical section on the handle that the checks have led to. -/
lemma Moved.rehashed {w : View} {db₀ db₁ : Db} {err : Err} (hpos : 0 < db.hashCapacity)
    (hs : db.sb.schemaVersion = schemaVersion)
    (hfree : (db.view g).lockFree) (hstill : View.Still (db.view g) w) (hview : db₀.view g = w.held)
    (hix : db₀.index = db.index) (hres : Resized g db₀ g'.size db₁)
    (hm : Moved g g' db₁ (db₀.liveEntries db₀.hashCapacity) err db') :
    Rehashed g g' db err db' := by
  have hlive := liveEntries_of_index hix
  rw [hlive] at hm
  have hslots : (db₁.view g).slots = (db.view g).slots := by
    rw [hres.slots, hview, View.held_slots, hstill.slots]
  have hlock : db.sb.indexWriteLock = 0 := hfree (by rw [← sb_eq, hs])
  have hsb₁ := hres.sb_held hs hstill hview
  have hcore₀ : db₀.core = { db.core with contention := db₀.core.contention } := by
    have hc : db₀.core = w.core := (congrArg View.core hview).trans View.held_core
    rw [hc]
    exact hstill.core
  refine ⟨?_, ?_, ?_, ?_, ?_, ?_, hm.indexed, ?_, ?_, ?_⟩
  · rw [hm.core, hres.core, hcore₀]
  · rw [hm.sb, hsb₁, movedSb_held hlock]
  · rw [← hslots]
    exact hm.status
  · rw [← hslots]
    exact hm.payload
  · rw [← hslots]
    exact hm.next
  · intro hok hcrc
    refine hm.crc hok ?_
    rw [hsb₁]
    exact hcrc
  · intro k off hmaps
    obtain ⟨i, hi, hoff, he⟩ := hm.sub k off hmaps
    exact ⟨i, hi, hoff, (mem_liveEntries hpos _).mp he⟩
  · intro hok hread hroom k i hi hmaps
    exact hm.all hok (nodup_liveEntries hread) hroom k i hi ((mem_liveEntries hpos ⟨_, _⟩).mpr hmaps)
  · exact hm.count

/-- The layout a rehash moves to. -/
lemma exists_rehash_geometry (hfit : 64 * g.n < 2 ^ 63) (newCapacity : ℕ) (hcap : newCapacity < 65536) :
    ∃ g' : Geometry, g'.cap = newCapacity ∧ g'.n = g.n ∧
      g'.size = efIndexFileSize g.n newCapacity ∧ g'.undoBase ≤ g'.size := by
  have hfits : 64 + 16 * newCapacity + 64 * g.n + undoLogBytes undoLogDefaultSlots < u64 := by
    simp only [undoLogBytes, undoLogDefaultSlots, u64]
    omega
  refine ⟨⟨newCapacity, g.n, hfits⟩, rfl, rfl, ?_, ?_⟩
  · unfold efIndexFileSize Geometry.size Geometry.undoBase Geometry.base
    simp only
    rw [Nat.mod_eq_of_lt (by simp only [undoLogBytes, undoLogDefaultSlots, u64] at *; omega)]
    omega
  · rw [Geometry.size_eq]
    omega

/-- The checks of a resize of the index, all passed: from here on the slots are moved. A shrink
passes the count of the handle, a memory image has its room in the buffer.
Source: `ef_index.c`, `ef_index_rehash_to` -/
structure RehashStarts (db : Db) (newCapacity : ℕ) (allowShrink : Bool) : Prop where
  writable : db.readonly = false
  pos : 0 < newCapacity
  pow : newCapacity &&& (newCapacity - 1) = 0
  small : newCapacity ≤ 0xFFFF
  free : ¬ db.indexLockBusy
  table : 0 < db.hashCapacity
  grows : allowShrink = false → db.hashCapacity < newCapacity
  shrinks : allowShrink = true → newCapacity < db.hashCapacity ∧ db.backend = .memory ∧
    (db.hashEntryCount = 0 ∨ db.hashEntryCount * 4 < newCapacity * 3)
  malloc : db.liveEntries db.hashCapacity = [] ∨ db.env.mallocFails = false
  room : db.backend = .memory → efIndexFileSize db.sb.maxSlots newCapacity ≤ db.mapCapacity
  grown : db.backend = .file → db.fileSize < efIndexFileSize db.sb.maxSlots newCapacity ∧
    db.env.growFileErr = none

instance (db : Db) (newCapacity : ℕ) (allowShrink : Bool) :
    Decidable (db.RehashStarts newCapacity allowShrink) :=
  decidable_of_iff
    (db.readonly = false ∧ 0 < newCapacity ∧ newCapacity &&& (newCapacity - 1) = 0 ∧
      newCapacity ≤ 0xFFFF ∧ ¬ db.indexLockBusy ∧ 0 < db.hashCapacity ∧
      (allowShrink = false → db.hashCapacity < newCapacity) ∧
      (allowShrink = true → newCapacity < db.hashCapacity ∧ db.backend = .memory ∧
        (db.hashEntryCount = 0 ∨ db.hashEntryCount * 4 < newCapacity * 3)) ∧
      (db.liveEntries db.hashCapacity = [] ∨ db.env.mallocFails = false) ∧
      (db.backend = .memory → efIndexFileSize db.sb.maxSlots newCapacity ≤ db.mapCapacity) ∧
      (db.backend = .file → db.fileSize < efIndexFileSize db.sb.maxSlots newCapacity ∧
        db.env.growFileErr = none))
    ⟨fun ⟨h₁, h₂, h₃, h₄, h₅, h₆, h₇, h₈, h₉, h₁₀, h₁₁⟩ =>
        ⟨h₁, h₂, h₃, h₄, h₅, h₆, h₇, h₈, h₉, h₁₀, h₁₁⟩,
      fun h => ⟨h.writable, h.pos, h.pow, h.small, h.free, h.table, h.grows, h.shrinks, h.malloc,
          h.room,
        h.grown⟩⟩

/-- The live entries go into an empty table of the new capacity, one after the other, in the order
of the old table.
Source: `ef_index.c`, `ef_index_rehash_to` -/
def refills (db : Db) (newCapacity : ℕ) : Bool :=
  RobinHood.fills newCapacity (efHashHome newCapacity)
    ((db.liveEntries db.hashCapacity).map HashEntry.pair) (fun _ => none)

/-- An attempt to take the lock uses up an answer, and nothing else of the environment. -/
lemma mallocFails_indexAttempt (db : Db) :
    db.indexAttempt.2.env.mallocFails = db.env.mallocFails := by
  unfold indexAttempt contended
  split_ifs
  · rfl
  · cases db.env.contention <;> rfl

/-- A file is made larger exactly if the new size is larger and the system call succeeds. -/
lemma efPortGrowFile_ok_iff (db : Db) (size : ℕ) :
    (db.efPortGrowFile size).1 = .ok ↔ db.fileSize < size ∧ db.env.growFileErr = none := by
  unfold efPortGrowFile
  by_cases hle : size ≤ db.fileSize
  · rw [if_pos hle]
    exact iff_of_false (by simp) (by omega)
  · rw [if_neg hle]
    rcases db.env.growFileErr with _ | ⟨err, herr⟩
    · exact iff_of_true rfl ⟨by omega, rfl⟩
    · exact iff_of_false herr (by simp)

/-- The checks before the section and those in it, on the handle that begins the section. -/
lemma rehashStarts_iff {db₀ : Db} {newCapacity : ℕ} {allowShrink : Bool} (hw : db.readonly = false)
    (hpos : 0 < newCapacity) (hpow : newCapacity &&& (newCapacity - 1) = 0)
    (hsmall : newCapacity ≤ 0xFFFF) (hbusy : ¬ db.indexLockBusy) (hindex : db₀.index = db.index)
    (hcore : db₀.core = { db.core with contention := db₀.core.contention })
    (hmax : db₀.sb.maxSlots = db.sb.maxSlots) (hmalloc : db₀.env.mallocFails = db.env.mallocFails) :
    db.RehashStarts newCapacity allowShrink ↔ db₀.rehashStop newCapacity allowShrink = none ∧
      (db₀.backend = .file → (db₀.efPortGrowFile (efIndexFileSize db₀.sb.maxSlots newCapacity)).1 =
          .ok) := by
  have hcap₀ : db₀.hashCapacity = db.hashCapacity := congrArg Index.cap hindex
  have hcount₀ : db₀.hashEntryCount = db.hashEntryCount := congrArg Index.count hindex
  have hback₀ : db₀.backend = db.backend := congrArg Core.backend hcore
  have hmap₀ : db₀.mapCapacity = db.mapCapacity := congrArg Core.mapCapacity hcore
  have hsize₀ : db₀.fileSize = db.fileSize := congrArg Core.fileSize hcore
  have hgrow₀ : db₀.env.growFileErr = db.env.growFileErr := congrArg Core.growFileErr hcore
  rw [rehashStop_eq_none_iff, efPortGrowFile_ok_iff, liveEntries_of_index hindex, hcap₀, hcount₀,
      hback₀,
    hmap₀, hsize₀, hgrow₀, hmax, hmalloc]
  constructor
  · intro h
    exact ⟨⟨h.table, h.grows, h.shrinks, h.malloc, h.room⟩, h.grown⟩
  · rintro ⟨⟨htable, hgrows, hshrinks, hm, hroom⟩, hgrown⟩
    exact ⟨hw, hpos, hpow, hsmall, hbusy, htable, hgrows, hshrinks, hm, hroom, hgrown⟩

/-- Behind the checks, a file that cannot be made larger stops a rehash. Else the slots are moved in
an image of the new size.
Source: `ef_index.c`, `ef_index_rehash_to` -/
lemma resizeAndMove_cases (h : (db.view g).Bound g) (newCapacity : ℕ) :
    let size := efIndexFileSize db.sb.maxSlots newCapacity
    (¬ (db.backend = .file → (db.efPortGrowFile size).1 = .ok) ∧
        ∃ err, err ≠ .ok ∧ db.resizeAndMove newCapacity = (err, db.efIndexWriteEnd)) ∨
      ((db.backend = .file → (db.efPortGrowFile size).1 = .ok) ∧
        ∃ db₁, Resized g db size db₁ ∧
          db.resizeAndMove newCapacity =
            db₁.rehashMove newCapacity (db.liveEntries db.hashCapacity)) := by
  simp only
  unfold resizeAndMove
  generalize efIndexFileSize db.sb.maxSlots newCapacity = size
  rcases hback : db.backend with _ | _
  · simp only
    rcases efPortGrowFile_spec h size with herr | ⟨hok, hres⟩
    · refine .inl ⟨fun hgrown => herr (hgrown trivial), ?_⟩
      generalize db.efPortGrowFile size = r at herr ⊢
      obtain ⟨e, grown⟩ := r
      have hne : (if grown.isMapped then e else .fault) ≠ .ok := by
        split_ifs
        · exact herr
        · simp
      cases e with
      | ok => exact absurd rfl herr
      | _ => exact ⟨_, hne, rfl⟩
    · refine .inr ⟨fun _ => hok, ?_⟩
      generalize db.efPortGrowFile size = r at hok hres ⊢
      obtain ⟨e, db₁⟩ := r
      simp only at hok hres
      subst hok
      exact ⟨db₁, hres, rfl⟩
  · simp only
    refine .inr ⟨fun h0 => (by cases h0), _, ?_, rfl⟩
    refine ⟨?_, rfl, rfl, rfl⟩
    unfold core
    rw [hback]

/-- **The checks of a rehash**: one of them stops it, and nothing but the answers to lock attempts
differs, or the slots are moved on a handle that holds the lock and has an image of the new size. -/
lemma efIndexRehashTo_checks (h : (db.view g).Bound g) (hs : db.sb.schemaVersion = schemaVersion)
    (hfit : 64 * g.n < 2 ^ 63) (newCapacity : ℕ) (allowShrink : Bool) :
    let r := db.efIndexRehashTo newCapacity allowShrink
    (¬ db.RehashStarts newCapacity allowShrink ∧
        View.Still (db.view g) (r.2.view g) ∧ r.2.index = db.index ∧
        (r.1 = .ok → allowShrink = false ∧ 0 < newCapacity ∧ newCapacity ≤ db.hashCapacity)) ∨
      (db.RehashStarts newCapacity allowShrink ∧ ∃ (g' : Geometry) (w : View) (db₀ db₁ : Db),
        g'.cap = newCapacity ∧ g'.n = g.n ∧ (db.view g).lockFree ∧ View.Still (db.view g) w ∧
          db₀.view g = w.held ∧ db₀.index = db.index ∧ Resized g db₀ g'.size db₁ ∧
          r = db₁.rehashMove newCapacity (db₀.liveEntries db₀.hashCapacity)) := by
  have hsame : ∀ err : Err, err ≠ .ok →
      View.Still (db.view g) (db.view g) ∧ db.index = db.index ∧
        (err = .ok → allowShrink = false ∧ 0 < newCapacity ∧ newCapacity ≤ db.hashCapacity) :=
    fun err herr => ⟨View.Still.refl _, rfl, fun hok => absurd hok herr⟩
  have hw : db.readonly = false := h.writable
  -- the checks of the capacity
  by_cases h3 : newCapacity < 1 ∨ newCapacity &&& (newCapacity - 1) ≠ 0
  · unfold efIndexRehashTo
    rw [if_neg (by simp [hw]), if_pos h3]
    refine .inl ⟨fun hst => ?_, hsame _ (by simp)⟩
    rcases h3 with h3 | h3
    · exact absurd hst.pos (by omega)
    · exact h3 hst.pow
  by_cases h4 : 0xFFFF < newCapacity
  · unfold efIndexRehashTo
    rw [if_neg (by simp [hw]), if_neg h3, if_pos h4]
    exact .inl ⟨fun hst => absurd hst.small (by omega), hsame _ (by simp)⟩
  obtain ⟨hpos, hpow⟩ : 0 < newCapacity ∧ newCapacity &&& (newCapacity - 1) = 0 := by
    rw [not_or, not_lt, not_not] at h3
    exact h3
  -- the lock
  have henv : db.efIndexWriteBegin.2.env.mallocFails = db.env.mallocFails :=
    (congrArg Env.mallocFails (env_efIndexWriteBegin db)).trans (mallocFails_indexAttempt db)
  have hbusy := efIndexWriteBegin_ok_iff_of_v5 hs
  obtain ⟨hindex, hbegin⟩ := efIndexWriteBegin_spec g db
  rcases hr : db.efIndexWriteBegin with ⟨e, db₀⟩
  rw [hr] at hindex hbegin henv hbusy
  simp only at hindex hbegin henv hbusy
  rcases hbegin with ⟨herr, hstill, -⟩ | ⟨rfl, hfree, w, hstill, hview⟩
  · have hno : e = .ok → allowShrink = false ∧ 0 < newCapacity ∧ newCapacity ≤ db.hashCapacity :=
      fun hok => absurd hok herr
    have hstop : ¬ db.RehashStarts newCapacity allowShrink := fun hst => herr (hbusy.mpr hst.free)
    unfold efIndexRehashTo
    rw [if_neg (by simp [hw]), if_neg h3, if_neg h4, hr]
    cases e with
    | ok => exact absurd rfl herr
    | _ => exact .inl ⟨hstop, hstill, hindex, hno⟩
  -- the section: a check that stops the rehash leaves it again
  rw [efIndexRehashTo_of_begun hw hpos hpow (by omega) hr]
  have hend : ∀ err : Err, (err = .ok → allowShrink = false ∧ 0 < newCapacity ∧
      newCapacity ≤ db.hashCapacity) →
      View.Still (db.view g) (db₀.efIndexWriteEnd.view g) ∧ db₀.efIndexWriteEnd.index = db.index ∧
        (err = .ok → allowShrink = false ∧ 0 < newCapacity ∧ newCapacity ≤ db.hashCapacity) :=
    fun err hok =>
      ⟨section_still hfree hstill hview, (efIndexWriteEnd_spec g db₀).2.trans hindex, hok⟩
  have hcap₀ : db₀.hashCapacity = db.hashCapacity := congrArg Index.cap hindex
  have hcore₀ : db₀.core = { db.core with contention := db₀.core.contention } := by
    have hc : db₀.core = w.core := (congrArg View.core hview).trans View.held_core
    rw [hc]
    exact hstill.core
  have hb₀ : (db₀.view g).Bound g := by
    rw [hview, View.bound_held]
    exact hstill.bound h
  have hmax₀ : db₀.sb.maxSlots = g.n := hb₀.maxSlots
  have hstarts : db.RehashStarts newCapacity allowShrink ↔ _ :=
    rehashStarts_iff hw hpos hpow (by omega) (hbusy.mp rfl) hindex hcore₀
      (hmax₀.trans (show db.sb.maxSlots = g.n from h.maxSlots).symm) henv
  rw [hstarts]
  rcases hstop : db₀.rehashStop newCapacity allowShrink with _ | err
  swap
  · refine .inl ⟨fun hst => absurd hst.1 (by simp), hend err fun hok => ?_⟩
    subst hok
    obtain ⟨ha, hle⟩ := rehashStop_ok hstop
    exact ⟨ha, hpos, by omega⟩
  -- the move, in an image of the new size
  obtain ⟨g', rfl, hn, hsize, -⟩ := exists_rehash_geometry hfit newCapacity (by omega)
  have hcases := resizeAndMove_cases hb₀ g'.cap
  rw [hmax₀, ← hsize] at hcases
  simp only
  rw [hmax₀, ← hsize]
  rcases hcases with ⟨hno, err, herr, heq⟩ | ⟨hgrown, db₁, hres, heq⟩
  · rw [heq]
    exact .inl ⟨fun hst => hno hst.2, hend err fun hok => absurd hok herr⟩
  · rw [heq]
    exact .inr ⟨⟨trivial, hgrown⟩, g', w, db₀, db₁, rfl, hn, hfree, hstill, hview, hindex, hres, rfl⟩

/-- The handle that the slots are moved on. -/
lemma Resized.laid {w : View} {db₀ db₁ : Db} {size : ℕ} (hres : Resized g db₀ size db₁)
    (h : (db.view g).Bound g) (hs : db.sb.schemaVersion = schemaVersion)
    (hstill : View.Still (db.view g) w) (hview : db₀.view g = w.held) :
    (db₁.view g).Laid g ∧ db₁.sb.schemaVersion = schemaVersion ∧ db₁.fileSize = size := by
  have hl₀ : (db₀.view g).Laid g := by
    rw [hview]
    exact (View.bound_held.mpr (hstill.bound h)).laid
  have hs₀ : db₀.sb.schemaVersion = schemaVersion := by
    have hsb : db₀.sb = w.held.sb := congrArg View.sb hview
    have hsbw : w.sb = db.sb := hstill.sb
    rw [hsb, View.held_schemaVersion, hsbw, hs]
  exact ⟨⟨(congrArg Core.hashCapacity hres.core).trans hl₀.cap,
      (congrArg Core.readonly hres.core).trans hl₀.writable,
      (congrArg Superblock.maxSlots hres.sb).trans hl₀.maxSlots⟩, by rw [hres.sb, hs₀],
    congrArg Core.fileSize hres.core⟩

/-- **The rehash**, whatever it returns: either a check stops it, and nothing but the answers to
lock attempts differs, or the slots are moved, and it succeeds exactly if the entries go into the
new table. -/
lemma efIndexRehashTo_cases (h : (db.view g).Bound g) (hs : db.sb.schemaVersion = schemaVersion)
    (hfit : 64 * g.n < 2 ^ 63)
    (hent : 0 < db.hashCapacity → ∀ k off, db.Maps k off → ∃ i, i < g.n ∧ off = g.ptr i)
    (newCapacity : ℕ) (allowShrink : Bool) :
    let r := db.efIndexRehashTo newCapacity allowShrink
    (¬ db.RehashStarts newCapacity allowShrink ∧
        View.Still (db.view g) (r.2.view g) ∧ r.2.index = db.index ∧
        (r.1 = .ok → allowShrink = false ∧ 0 < newCapacity ∧ newCapacity ≤ db.hashCapacity)) ∨
      (db.RehashStarts newCapacity allowShrink ∧
        ∃ g' : Geometry, g'.cap = newCapacity ∧ g'.n = g.n ∧ Rehashed g g' db r.1 r.2 ∧
          (r.1 = .ok ↔ db.refills newCapacity = true) ∧
          RobinHood.occupied newCapacity r.2.table ≤ (db.liveEntries db.hashCapacity).length ∧
          (r.1 ≠ .ok →
            RobinHood.occupied newCapacity r.2.table < (db.liveEntries db.hashCapacity).length)) := by
  rcases efIndexRehashTo_checks h hs hfit newCapacity allowShrink with
    hstop | ⟨hst, g', w, db₀, db₁, rfl, hn, hfree, hstill, hview, hindex, hres, heq⟩
  · exact .inl hstop
  simp only
  rw [heq]
  have hpos : 0 < db.hashCapacity := hst.table
  have hsmall := hst.small
  have hlive₀ := liveEntries_of_index hindex
  have hes : ∀ e ∈ db₀.liveEntries db₀.hashCapacity,
      e.keyHash < u64 ∧ ∃ i, i < g.n ∧ e.slotOffset = g.ptr i := by
    intro e he
    rw [hlive₀, mem_liveEntries hpos] at he
    refine ⟨?_, hent hpos _ _ he⟩
    obtain ⟨i, hi⟩ := he
    rw [← (table_eq_some_iff.mp hi).2.1]
    exact entry_keyHash_lt db _
  obtain ⟨hl₁, hs₁, hsize₁⟩ := hres.laid h hs hstill hview
  have hub : g'.undoBase ≤ db₁.fileSize := by
    rw [hsize₁, g'.size_eq]
    omega
  refine .inr ⟨hst, g', rfl, hn, Moved.rehashed hpos hs hfree hstill hview hindex hres ?_, ?_, ?_⟩
  · exact rehashMove_spec hl₁ hs₁ hn (by omega) hst.pos hst.pow hub hes
  · rw [rehashMove_ok_iff hl₁ hs₁ hn (by omega) hst.pos hst.pow hes, hlive₀]
    rfl
  · have hocc := rehashMove_occupied hl₁ hs₁ hn (by omega) hst.pos hst.pow hes
    rw [← hlive₀]
    exact hocc

/-- **A rehash that gets through its checks** moves the slots, whatever the entries of the table are
and whatever it returns.
Source: `ef_index.c`, `ef_index_rehash_to` -/
lemma efIndexRehashTo_moved (h : (db.view g).Bound g) (hs : db.sb.schemaVersion = schemaVersion)
    (hfit : 64 * g.n < 2 ^ 63) {newCapacity : ℕ} {allowShrink : Bool}
    (hst : db.RehashStarts newCapacity allowShrink) :
    let r := db.efIndexRehashTo newCapacity allowShrink
    ∃ g' : Geometry, g'.cap = newCapacity ∧ g'.n = g.n ∧ (r.2.view g').Bound g' ∧
      r.2.sb = movedSb g g' db.sb ∧
      ∃ fresh, MovedSlots g g' (db.view g) (r.2.view g') fresh ∧
        (r.1 = .ok → fresh = db.sb.slotCrc) := by
  rcases efIndexRehashTo_checks h hs hfit newCapacity allowShrink with
    ⟨hno, -⟩ | ⟨-, g', w, db₀, db₁, rfl, hn, hfree, hstill, hview, -, hres, heq⟩
  · exact absurd hst hno
  simp only
  rw [heq]
  have hsmall := hst.small
  obtain ⟨hl₁, hs₁, hsize₁⟩ := hres.laid h hs hstill hview
  have hub : g'.undoBase ≤ db₁.fileSize := by
    rw [hsize₁, g'.size_eq]
    omega
  obtain ⟨hb, hsb, fresh, hslots, hfresh⟩ := rehashMove_slots hl₁ hs₁ hn (by omega) hub
    (db₀.liveEntries db₀.hashCapacity)
  have hslots₁ : (db₁.view g).slots = (db.view g).slots := by
    rw [hres.slots, hview, View.held_slots, hstill.slots]
  have hlock : db.sb.indexWriteLock = 0 := hfree (by rw [← sb_eq, hs])
  have hsb₁ := hres.sb_held hs hstill hview
  have hcrc₁ : db₁.sb.slotCrc = db.sb.slotCrc := by
    rw [hsb₁]
    rfl
  refine ⟨g', rfl, hn, hb, ?_, fresh, ⟨fun i => ?_, fun i => ?_, fun i hi => ?_, hslots.crc⟩,
    fun hok => (hfresh hok).trans hcrc₁⟩
  · rw [hsb, hsb₁, movedSb_held hlock]
  · rw [hslots.status, hslots₁]
  · rw [hslots.payload, hslots₁]
  · rw [hslots.next i hi, hslots₁]

/-- **A rehash that succeeds**, whatever the entries of the table are: the capacity does not grow,
and nothing but the answers to lock attempts differs, or the slots are moved. -/
lemma efIndexRehash_slots (h : (db.view g).Bound g) (hs : db.sb.schemaVersion = schemaVersion)
    (hfit : 64 * g.n < 2 ^ 63) {newCapacity : ℕ} (hok : (db.efIndexRehash newCapacity).1 = .ok) :
    (newCapacity ≤ db.hashCapacity ∧
        View.Still (db.view g) ((db.efIndexRehash newCapacity).2.view g)) ∨
      (db.hashCapacity < newCapacity ∧ ∃ g' : Geometry, g'.cap = newCapacity ∧ g'.n = g.n ∧
        ((db.efIndexRehash newCapacity).2.view g').Bound g' ∧
        (db.efIndexRehash newCapacity).2.sb.slotCrc = db.sb.slotCrc ∧
        MovedSlots g g' (db.view g) ((db.efIndexRehash newCapacity).2.view g') db.sb.slotCrc) := by
  unfold efIndexRehash at hok ⊢
  rcases efIndexRehashTo_checks h hs hfit newCapacity false with ⟨-, hstill, -, hle⟩ | ⟨hst, -⟩
  · exact .inl ⟨(hle hok).2.2, hstill⟩
  obtain ⟨g', hcap, hn, hb, hsb, fresh, hslots, hfresh⟩ := efIndexRehashTo_moved h hs hfit hst
  refine .inr ⟨hst.grows rfl, g', hcap, hn, hb, ?_, ?_⟩
  · rw [hsb]
    rfl
  · rw [← hfresh hok]
    exact hslots

/-- **The rehash**, whatever it returns: either nothing but the answers to lock attempts differs, or
the slots are moved. -/
lemma efIndexRehashTo_spec (h : (db.view g).Bound g) (hs : db.sb.schemaVersion = schemaVersion)
    (hfit : 64 * g.n < 2 ^ 63)
    (hent : 0 < db.hashCapacity → ∀ k off, db.Maps k off → ∃ i, i < g.n ∧ off = g.ptr i)
    (newCapacity : ℕ) (allowShrink : Bool) :
    let r := db.efIndexRehashTo newCapacity allowShrink
    (View.Still (db.view g) (r.2.view g) ∧ r.2.index = db.index ∧
        (r.1 = .ok → allowShrink = false ∧ 0 < newCapacity ∧ newCapacity ≤ db.hashCapacity)) ∨
      (0 < db.hashCapacity ∧ (allowShrink = true → newCapacity < db.hashCapacity) ∧
        (allowShrink = false → db.hashCapacity < newCapacity) ∧
        ∃ g' : Geometry, g'.cap = newCapacity ∧ g'.n = g.n ∧ Rehashed g g' db r.1 r.2) := by
  rcases efIndexRehashTo_cases h hs hfit hent newCapacity allowShrink with
    ⟨-, hstill⟩ | ⟨hst, g', hcap, hn, hr, -⟩
  · exact .inl hstill
  · exact .inr ⟨hst.table, fun ha => (hst.shrinks ha).1, hst.grows, g', hcap, hn, hr⟩

end Db

end Endfields.Model
