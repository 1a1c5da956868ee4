import Endfields.Spec.Stays

/-!
# Release of slots

`ef_free_slot` gives a slot and the overflow slots chained from it back to the pool.

* `View.pushSlots`: the view after slots were put on the free list one after the other, with what
  that does to statuses, links and the list (`pushSlots_linked`).
* `Db.overflowChain`: the overflow slots chained from a slot, read off the state before the call.
* `Freed g db l db'`: the slots `l` were given back, and nothing else changed.
* **Release of a chain**: up to the first removal that moves the slots (`releaseChainLoop_cases`),
  and on a handle that stays put through it (`releaseChainLoop_spec`).
-/

namespace Endfields.Model

open Endfields.Lib

namespace View

variable {g : Geometry} {v w : View} {l : List ℕ} {i j : ℕ}

/-- Put the slots of a list on the free list, one after the other. -/
def pushSlots (g : Geometry) (v : View) (l : List ℕ) : View := l.foldl (View.pushSlot g) v

/-- The same slots are given back in both. -/
lemma Still.pushSlots (h : Still v w) (g : Geometry) (l : List ℕ) :
    Still (v.pushSlots g l) (w.pushSlots g l) := by
  induction l generalizing v w with
  | nil => exact h
  | cons i l ih => exact ih (h.pushSlot g i)

/-- Slots given back in two groups. -/
lemma pushSlots_append (l l' : List ℕ) :
    v.pushSlots g (l ++ l') = (v.pushSlots g l).pushSlots g l' := List.foldl_append

/-- A slot given back leaves the geometry alone. -/
lemma bound_pushSlot : (v.pushSlot g i).Bound g ↔ v.Bound g := by
  constructor
  · intro h
    exact h.congr rfl rfl rfl rfl
  · intro h
    exact h.congr rfl rfl rfl rfl

/-- Slots given back leave the geometry alone. -/
lemma bound_pushSlots : (v.pushSlots g l).Bound g ↔ v.Bound g := by
  induction l generalizing v with
  | nil => rfl
  | cons i l ih => exact (ih (v := v.pushSlot g i)).trans bound_pushSlot

/-- The other slots stay when one is given back. -/
lemma pushSlot_slots_of_ne (h : j ≠ i) : (v.pushSlot g i).slots j = v.slots j := by
  unfold pushSlot
  rw [setSlot_slots, Function.update_of_ne h]
  rfl

/-- The slot given back is `FREE`, empty, and linked to the old head. -/
lemma pushSlot_slots_self : (v.pushSlot g i).slots i = v.released := by
  unfold pushSlot
  rw [setSlot_slots, Function.update_self]

/-- Slots given back leave the handle alone. -/
lemma pushSlots_core (l : List ℕ) : (v.pushSlots g l).core = v.core := by
  induction l generalizing v with
  | nil => rfl
  | cons i l ih => exact ih (v := v.pushSlot g i)

/-- Slots given back leave the schema alone. -/
lemma pushSlots_schemaVersion (l : List ℕ) :
    (v.pushSlots g l).sb.schemaVersion = v.sb.schemaVersion := by
  induction l generalizing v with
  | nil => rfl
  | cons i l ih => exact ih (v := v.pushSlot g i)

/-- The flags of the superblock stay. -/
lemma pushSlots_slotCrc (l : List ℕ) : (v.pushSlots g l).sb.slotCrc = v.sb.slotCrc := by
  induction l generalizing v with
  | nil => rfl
  | cons i l ih => exact (ih (v := v.pushSlot g i)).trans (by unfold pushSlot; simp)

/-- The other slots stay. -/
lemma pushSlots_slots_of_not_mem (h : j ∉ l) : (v.pushSlots g l).slots j = v.slots j := by
  induction l generalizing v with
  | nil => rfl
  | cons i l ih =>
      rw [List.mem_cons, not_or] at h
      exact (ih h.2).trans (pushSlot_slots_of_ne h.1)

/-- The slots given back are `FREE`. -/
lemma pushSlots_status_of_mem (h : j ∈ l) : ((v.pushSlots g l).slots j).status = statusFree := by
  induction l generalizing v with
  | nil => exact absurd h List.not_mem_nil
  | cons i l ih =>
      by_cases hl : j ∈ l
      · exact ih hl
      · have hji : j = i := (List.mem_cons.mp h).resolve_right hl
        subst hji
        have hself : (v.pushSlots g (j :: l)).slots j = v.released :=
          (pushSlots_slots_of_not_mem hl).trans pushSlot_slots_self
        rw [hself]
        rfl

/-- **The free list after the slots were given back**: they lead, last first, to the old head. -/
lemma pushSlots_linked (hnd : l.Nodup) (hlt : ∀ i ∈ l, i < g.n) :
    Linked g.idOf (fun i => ((v.pushSlots g l).slots i).nextOffset)
      (v.pushSlots g l).sb.freeListHead l.reverse v.sb.freeListHead := by
  induction l using List.reverseRecOn generalizing v with
  | nil => exact rfl
  | append_singleton l i ih =>
      obtain ⟨hnd, -, hdisj⟩ := List.nodup_append.mp hnd
      have hi : i ∉ l := fun hmem => hdisj i hmem i (by simp) rfl
      have hpush : v.pushSlots g (l ++ [i]) = (v.pushSlots g l).pushSlot g i := pushSlots_append l [i]
      rw [List.reverse_append, hpush]
      refine ⟨g.idOf_ptr (hlt i (by simp)), ?_⟩
      simp only [pushSlot_slots_self]
      refine (ih hnd fun j hj => hlt j (by simp [hj])).mono fun o a ha hr => ⟨hr, ?_⟩
      have hai : a ≠ i := fun heq => hi (heq ▸ List.mem_reverse.mp ha)
      simp only [pushSlot_slots_of_ne hai]

/-- The slot at an offset, if it is an overflow slot. -/
def overflowAt (g : Geometry) (v : View) (off : ℕ) : Option ℕ :=
  (g.idOf off).filter fun j => (v.slots j).status = statusOverflow

/-- An offset leads to an overflow slot exactly if it is the address of one. -/
lemma overflowAt_eq_some_iff {off : ℕ} : v.overflowAt g off = some j ↔
    j < g.n ∧ off = g.ptr j ∧ (v.slots j).status = statusOverflow := by
  unfold overflowAt
  rw [Option.filter_eq_some_iff, g.idOf_eq_some_iff, decide_eq_true_eq, and_assoc]

/-- The overflow slots `l` lead from the offset `off` to the offset `z`. -/
def OverflowPath (g : Geometry) (v : View) (off : ℕ) (l : List ℕ) (z : ℕ) : Prop :=
  Linked (v.overflowAt g) (fun j => (v.slots j).nextOffset) off l z

/-- The offset `0` ends a chain. -/
lemma overflowAt_zero : v.overflowAt g 0 = none := by
  rw [Option.eq_none_iff_forall_not_mem]
  intro j hj
  obtain ⟨-, hptr, -⟩ := overflowAt_eq_some_iff.mp hj
  exact g.ptr_ne_zero j hptr.symm

end View

namespace Db

/-- The slot at an offset, if it is an overflow slot. -/
def overflowAt (db : Db) (off : ℕ) : Option ℕ :=
  match db.efOffsetToSlotId off with
  | .ok j => if (db.slot j).status = statusOverflow then some j else none
  | .error _ => none

/-- The overflow slots chained from slot `i`. -/
def overflowChain (db : Db) (i : ℕ) : List ℕ :=
  walk db.overflowAt (fun j => (db.slot j).nextOffset) (db.sb.maxSlots + 1) (db.slot i).nextOffset

variable {g : Geometry} {db db' : Db} {l : List ℕ} {i j : ℕ}

/-- The overflow slot at an offset, in the view. -/
lemma overflowAt_eq (h : (db.view g).Bound g) (off : ℕ) :
    db.overflowAt off = (db.view g).overflowAt g off := by
  unfold overflowAt View.overflowAt
  rw [← efOffsetToSlotId_toOption h]
  rcases hid : db.efOffsetToSlotId off with e | j
  · rfl
  · obtain ⟨hj, -⟩ := (efOffsetToSlotId_eq_ok_iff h _ _).mp hid
    simp only [slot_eq h.cap hj, Except.toOption]
    by_cases hst : ((db.view g).slots j).status = statusOverflow
    · rw [if_pos hst]
      refine (Option.filter_some_pos ?_).symm
      exact decide_eq_true hst
    · rw [if_neg hst]
      refine (Option.filter_some_neg ?_).symm
      exact decide_eq_false hst

/-- The slots `l` were given back to the pool, and nothing else changed but that their entries were
taken off the table. -/
structure Freed (g : Geometry) (db : Db) (l : List ℕ) (db' : Db) : Prop where
  still : View.Still ((db.view g).pushSlots g l) (db'.view g)
  table : SameTable (db.afterRemovals l) db'

namespace Freed

/-- The handle keeps its geometry. -/
lemma bound (h : Freed g db l db') (hb : (db.view g).Bound g) : (db'.view g).Bound g :=
  h.still.bound (View.bound_pushSlots.mpr hb)

/-- The handle's fields stay, but for the answers to lock attempts. -/
lemma core (h : Freed g db l db') : db'.core = { db.core with contention := db'.env.contention } := by
  have hcore := h.still.core
  rw [View.pushSlots_core] at hcore
  exact hcore

/-- The handle keeps its schema. -/
lemma schema (h : Freed g db l db') : db'.sb.schemaVersion = db.sb.schemaVersion := by
  have hsb : db'.sb = ((db.view g).pushSlots g l).sb := h.still.sb
  rw [hsb, View.pushSlots_schemaVersion]
  rfl

/-- Nothing is given back. -/
lemma nil (db : Db) : Freed g db [] db where
  still := View.Still.refl _
  table := SameTable.refl db

/-- Two groups of slots are given back. -/
lemma trans {l' : List ℕ} {db'' : Db} (h : Freed g db l db') (h' : Freed g db' l' db'')
    (hb : (db.view g).Bound g) : Freed g db (l ++ l') db'' where
  still := by
    rw [View.pushSlots_append]
    exact (h.still.pushSlots g l').trans h'.still
  table := by
    have hcap : db'.hashCapacity = g.cap := (h.bound hb).cap
    have hlist : db.afterRemovals (l ++ l') = (db.afterRemovals l).afterRemovals l' :=
      List.foldl_append
    rw [hlist]
    exact (h.table.afterRemovals (h.table.hashCapacity.symm.trans hcap) l').trans h'.table

/-- What stays put through the removals to come does so after the first of them. -/
lemma staysPut {l' : List ℕ} (h : Freed g db l db') (hb : (db.view g).Bound g)
    (hs : StaysPut db (l ++ l')) : StaysPut db' l' :=
  h.table.staysPut (h.table.hashCapacity.symm.trans (h.bound hb).cap) (staysPut_append.mp hs).2

end Freed

/-! ### Slot writes and the table -/

/-- A slot lies behind the table. -/
lemma slotsBase_le_ptr (h : (db.view g).Bound g) (i : ℕ) : db.slotsBase ≤ g.ptr i := by
  rw [slotsBase_eq_base h.cap]
  unfold Geometry.ptr
  omega

/-- A stored link leaves the table alone. -/
lemma index_setNext {p : ℕ} (v : ℕ) (h : db.slotsBase ≤ p) : (db.setNext p v).index = db.index :=
  index_store_high (by omega)

/-- A stored status leaves the table alone. -/
lemma index_setStatus {p : ℕ} (v : ℕ) (h : db.slotsBase ≤ p) :
    (db.setStatus p v).index = db.index :=
  index_store_high h

/-- A stored checksum leaves the table alone. -/
lemma index_setHeaderCrc {p : ℕ} (v : ℕ) (h : db.slotsBase ≤ p) :
    (db.setHeaderCrc p v).index = db.index :=
  index_store_high (by omega)

/-- A cleared payload leaves the table alone. -/
lemma index_zero_payload {p : ℕ} (h : db.slotsBase ≤ p) :
    (db.zero (db.efSlotPayloadPtr p) db.efPayloadCapacity).index = db.index := by
  refine index_zero_high (h.trans ?_)
  unfold efSlotPayloadPtr
  split_ifs
  · omega
  · omega

/-- The head of the free list is no part of the table. -/
lemma index_setFreeListHead (v : ℕ) : (db.setFreeListHead v).index = db.index :=
  index_store_low (by norm_num)

/-- The free count is no part of the table.
Source: `endfields.c`, `ef_sb_free_count_inc` -/
lemma index_efSbFreeCountInc : db.efSbFreeCountInc.index = db.index :=
  index_store_low (by norm_num)

/-- A computed checksum leaves the table alone.
Source: `endfields.c`, `ef_slot_header_crc_store` -/
lemma index_efSlotHeaderCrcStore {p : ℕ} (id : ℕ) (h : db.slotsBase ≤ p) :
    (db.efSlotHeaderCrcStore id p).index = db.index := by
  unfold efSlotHeaderCrcStore
  split_ifs
  · exact index_setHeaderCrc _ h
  · rfl

/-- A slot put on the free list leaves the table alone.
Source: `endfields.c`, `ef_free_list_push_atomic` -/
lemma index_efFreeListPushAtomic {p : ℕ} (h : db.slotsBase ≤ p) :
    (db.efFreeListPushAtomic i p).2.index = db.index := by
  unfold efFreeListPushAtomic
  rw [index_setError, index_efDbMarkMetaDirty, index_efSbFreeCountInc, index_setFreeListHead,
    index_setStatus, index_setNext, index_zero_payload, index_setHeaderCrc _ h]
  · exact h
  · exact h
  · exact h

/-- A slot put on the free list asks for no lock.
Source: `endfields.c`, `ef_free_list_push_atomic` -/
lemma env_efFreeListPushAtomic (i p : ℕ) : (db.efFreeListPushAtomic i p).2.env = db.env := by
  unfold efFreeListPushAtomic setError efDbMarkMetaDirty efSbFreeCountInc
  rfl

/-- A slot is pushed on the free list beside the table. -/
lemma SameTable.push (h : (db.view g).Bound g) (hi : i < g.n) :
    SameTable db (db.efFreeListPushAtomic i (g.ptr i)).2 := by
  obtain ⟨db', heq, hview⟩ := efFreeListPushAtomic_spec h hi
  have hindex : (db.efFreeListPushAtomic i (g.ptr i)).2.index = db.index :=
    index_efFreeListPushAtomic (slotsBase_le_ptr h i)
  have henv : (db.efFreeListPushAtomic i (g.ptr i)).2.env = db.env := env_efFreeListPushAtomic i _
  rw [heq] at hindex henv ⊢
  have hcore : db'.core = db.core := congrArg View.core hview
  have hsb : db'.sb = ((db.view g).pushSlot g i).sb := congrArg View.sb hview
  refine ⟨hindex, henv, congrArg Core.backend hcore, congrArg Core.mapCapacity hcore, ?_, ?_⟩
  · rw [hsb]
    rfl
  · rw [hsb]
    rfl

/-- A slot's link is cleared beside the table. -/
lemma SameTable.setNext (h : (db.view g).Bound g) (hi : i < g.n) :
    SameTable db (db.setNext (g.ptr i) 0) := by
  have hview : (db.setNext (g.ptr i) 0).view g = (db.view g).setSlot i
      { (db.view g).slots i with nextOffset := 0 } := view_setNext hi
  have hindex : (db.setNext (g.ptr i) 0).index = db.index := index_setNext 0 (slotsBase_le_ptr h i)
  have henv : (db.setNext (g.ptr i) 0).env = db.env := rfl
  generalize db.setNext (g.ptr i) 0 = db' at hview hindex henv ⊢
  have hcore : db'.core = db.core := congrArg View.core hview
  have hsb : db'.sb = db.sb := congrArg View.sb hview
  exact ⟨hindex, henv, congrArg Core.backend hcore, congrArg Core.mapCapacity hcore,
    congrArg Superblock.maxSlots hsb, congrArg Superblock.schemaVersion hsb⟩

/-- A slot's checksum is stored beside the table. -/
lemma SameTable.efSlotHeaderCrcStore (h : (db.view g).Bound g) (hi : i < g.n) :
    SameTable db (db.efSlotHeaderCrcStore i (g.ptr i)) := by
  have hview : (db.efSlotHeaderCrcStore i (g.ptr i)).view g = _ := view_efSlotHeaderCrcStore hi i
  have hindex : (db.efSlotHeaderCrcStore i (g.ptr i)).index = db.index :=
    index_efSlotHeaderCrcStore i (slotsBase_le_ptr h i)
  have henv : (db.efSlotHeaderCrcStore i (g.ptr i)).env = db.env := by
    unfold Db.efSlotHeaderCrcStore
    split_ifs <;> rfl
  generalize db.efSlotHeaderCrcStore i (g.ptr i) = db' at hview hindex henv ⊢
  have hcore : db'.core = db.core := congrArg View.core hview
  have hsb : db'.sb = db.sb := congrArg View.sb hview
  exact ⟨hindex, henv, congrArg Core.backend hcore, congrArg Core.mapCapacity hcore,
    congrArg Superblock.maxSlots hsb, congrArg Superblock.schemaVersion hsb⟩

/-! ### The release of a chain -/

/-- A slot is given back exactly if the write section of the index is entered. -/
lemma efReturnSlotToPool_fst (hw : db.readonly = false) (i p : ℕ) :
    (db.efReturnSlotToPool i p).1 = db.efIndexWriteBegin.1 ∧
      (db.efIndexWriteBegin.1 ≠ .ok →
        (db.efReturnSlotToPool i p).2.view g = db.efIndexWriteBegin.2.view g) := by
  obtain ⟨hfst, hsnd⟩ := efIndexRemoveBySlot_fst hw i
  unfold efReturnSlotToPool
  rw [← hfst] at hsnd ⊢
  generalize db.efIndexRemoveBySlot i = r at hsnd ⊢
  obtain ⟨e, db₁⟩ := r
  cases e with
  | ok => exact ⟨rfl, fun h => absurd rfl h⟩
  | _ =>
      refine ⟨rfl, fun h => ?_⟩
      have hdb : db₁ = db.efIndexWriteBegin.2 := hsnd h
      rw [← hdb]
      rfl

/-- **A slot given back** without a move of the slots. -/
lemma efReturnSlotToPool_spec (h : (db.view g).Bound g) (hi : i < g.n)
    (hm : ¬ db.removalMoves i) (hok : (db.efReturnSlotToPool i (g.ptr i)).1 = .ok) :
    Freed g db [i] (db.efReturnSlotToPool i (g.ptr i)).2 := by
  have hrem := efIndexRemoveBySlot_still h hi hm
  unfold efReturnSlotToPool at hok ⊢
  rcases hr : db.efIndexRemoveBySlot i with ⟨e, db₁⟩
  rw [hr] at hrem hok
  cases e with
  | ok =>
      obtain ⟨hstill, htable⟩ := hrem rfl
      have hbound : (db₁.view g).Bound g := hstill.bound h
      simp only
      obtain ⟨db₂, heq, hview⟩ := efFreeListPushAtomic_spec hbound hi
      have hpush := SameTable.push hbound hi
      rw [heq] at hpush ⊢
      constructor
      · rw [hview]
        exact hstill.pushSlot g i
      · rw [afterRemovals_singleton]
        exact htable.trans hpush
  | _ => cases hok

/-- Clearing a slot's link before it is given back does not matter. -/
lemma Freed.of_setNext {p : ℕ} (h : (db.view g).Bound g) (hi : i < g.n) (hp : p = g.ptr i)
    (hf : Freed g (db.setNext p 0) [i] db') : Freed g db [i] db' := by
  subst hp
  have htable := SameTable.setNext h hi
  have hview : (db.setNext (g.ptr i) 0).view g = (db.view g).setSlot i
      { (db.view g).slots i with nextOffset := 0 } := view_setNext hi
  generalize db.setNext (g.ptr i) 0 = db₁ at hf htable hview
  have hpush : (db₁.view g).pushSlots g [i] = (db.view g).pushSlots g [i] := by
    rw [hview]
    show ((db.view g).setSlot i _).pushSlot g i = (db.view g).pushSlot g i
    unfold View.pushSlot
    rw [View.setSlot_setSb, View.setSlot_setSlot]
    rfl
  refine ⟨?_, (htable.afterRemovals h.cap [i]).trans hf.table⟩
  rw [← hpush]
  exact hf.still

/-- After slots were given back, fewer slots are overflow slots, and their links are the same. -/
lemma overflowAt_of_freed (hf : Freed g db [i] db') (off : ℕ)
    (hj : (db'.view g).overflowAt g off = some j) :
    j ≠ i ∧ (db.view g).overflowAt g off = some j ∧
      ((db'.view g).slots j).nextOffset = ((db.view g).slots j).nextOffset := by
  obtain ⟨hlt, hptr, hst⟩ := View.overflowAt_eq_some_iff.mp hj
  rw [hf.still.slots] at hst ⊢
  have hne : j ≠ i := by
    rintro rfl
    rw [View.pushSlots_status_of_mem (by simp)] at hst
    simp at hst
  rw [View.pushSlots_slots_of_not_mem (by simpa using hne)] at hst ⊢
  exact ⟨hne, View.overflowAt_eq_some_iff.mpr ⟨hlt, hptr, hst⟩, rfl⟩

/-- **The release of a chain**, when it succeeds: no removal has moved the slots, the chain has led
to its end, and its slots were given back; or the removal for the slot `c` has, and the slots before
it were given back.
Source: `ef_blob.c`, `ef_blob_release_chain` -/
lemma releaseChainLoop_cases (fuel off : ℕ) (h : (db.view g).Bound g)
    (hok : (releaseChainLoop fuel off db).1 = .ok) :
    (∃ l, View.OverflowPath g (db.view g) off l 0 ∧ l.Nodup ∧ db.StaysPut l ∧
      Freed g db l (releaseChainLoop fuel off db).2) ∨
    ∃ l c z, View.OverflowPath g (db.view g) off (l ++ [c]) z ∧ (l ++ [c]).Nodup ∧
      ∃ k db₁ db₂, Freed g db l db₁ ∧ db₁.removalMoves c ∧
        (db₁.setNext (g.ptr c) 0).efReturnSlotToPool c (g.ptr c) = (.ok, db₂) ∧
        releaseChainLoop fuel off db = releaseChainLoop k z db₂ := by
  induction fuel generalizing off db with
  | zero => cases hok
  | succ fuel ih =>
      rw [releaseChainLoop] at hok ⊢
      by_cases h0 : off = 0
      · rw [if_pos h0]
        exact .inl ⟨[], h0, List.nodup_nil, .nil db, Freed.nil db⟩
      rw [if_neg h0] at hok ⊢
      rcases hid : db.efOffsetToSlotId off with e | j
      · rw [hid] at hok
        exact absurd (hid.trans (congrArg Except.error hok)) efOffsetToSlotId_ne_error_ok
      rw [hid] at hok
      obtain ⟨hj, hptr⟩ := (efOffsetToSlotId_eq_ok_iff h _ _).mp hid
      simp only [slotPtr_eq h.cap, slotAt_eq db hj] at hok ⊢
      by_cases hst : ((db.view g).slots j).status = statusOverflow
      swap
      · rw [if_pos hst] at hok
        cases hok
      rw [if_neg (not_not.mpr hst)] at hok ⊢
      have hres : (db.view g).overflowAt g off = some j :=
        View.overflowAt_eq_some_iff.mpr ⟨hj, hptr, hst⟩
      have hbound₀ : ((db.setNext (g.ptr j) 0).view g).Bound g := by
        rw [view_setNext hj, View.bound_setSlot]
        exact h
      have hret := efReturnSlotToPool_spec hbound₀ hj
      rw [(SameTable.setNext h hj).removalMoves h.cap] at hret
      rcases hr : (db.setNext (g.ptr j) 0).efReturnSlotToPool j (g.ptr j) with ⟨e, db₁⟩
      rw [hr] at hok hret
      cases e with
      | ok =>
          by_cases hmove : db.removalMoves j
          · -- the slots are moved
            exact .inr ⟨[], j, _, ⟨hres, rfl⟩, List.nodup_singleton j, fuel, db, db₁, Freed.nil db,
              hmove, hr, rfl⟩
          have hf : Freed g db [j] db₁ := (hret hmove rfl).of_setNext h hj rfl
          have hpath : ∀ l z, View.OverflowPath g (db₁.view g) ((db.view g).slots j).nextOffset l z →
              j ∉ l ∧ View.OverflowPath g (db.view g) off (j :: l) z := by
            intro l z hlink
            refine ⟨fun hjl => ?_, hres, hlink.mono fun o a _ ha => (overflowAt_of_freed hf o ha).2⟩
            obtain ⟨o, ho⟩ := hlink.exists_of_mem hjl
            exact (overflowAt_of_freed hf o ho).1 rfl
          rcases ih _ (hf.bound h) hok with
            ⟨l, hlink, hnd, hs, hfreed⟩ | ⟨l, c, z, hlink, hnd, k, db₂, db₃, hfreed, hm, hc, heq⟩
          · obtain ⟨hjl, hlink'⟩ := hpath l 0 hlink
            have hcap : db₁.hashCapacity = g.cap := (hf.bound h).cap
            have hs' : (db.afterRemoval j).StaysPut l := by
              rw [← afterRemovals_singleton]
              exact hf.table.symm.staysPut hcap hs
            exact .inl ⟨j :: l, hlink', List.nodup_cons.mpr ⟨hjl, hnd⟩, .cons hmove hs',
              hf.trans hfreed h⟩
          · obtain ⟨hjl, hlink'⟩ := hpath (l ++ [c]) z hlink
            exact .inr ⟨j :: l, c, z, hlink', List.nodup_cons.mpr ⟨hjl, hnd⟩, k, db₂, db₃,
              hf.trans hfreed h, hm, hc, heq⟩
      | _ => cases hok

/-- **The release of a chain** on a handle that stays put through it: when it succeeds, the chain
has led to its end, and its slots were given back. -/
lemma releaseChainLoop_spec (fuel off : ℕ) (h : (db.view g).Bound g)
    (hs : ∀ l z, l.Nodup → View.OverflowPath g (db.view g) off l z → db.StaysPut l)
    (hok : (releaseChainLoop fuel off db).1 = .ok) :
    ∃ l, View.OverflowPath g (db.view g) off l 0 ∧ l.Nodup ∧
      Freed g db l (releaseChainLoop fuel off db).2 := by
  rcases releaseChainLoop_cases fuel off h hok with
    ⟨l, hpath, hnd, -, hf⟩ | ⟨l, c, z, hpath, hnd, -, db₁, -, hf, hm, -⟩
  · exact ⟨l, hpath, hnd, hf⟩
  · have hs₁ := hf.staysPut h (hs _ z hnd hpath)
    exact absurd hm (staysPut_cons.mp hs₁).1

end Db

end Endfields.Model
