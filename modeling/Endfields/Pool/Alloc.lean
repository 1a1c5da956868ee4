import Endfields.Spec.Seal

/-!
# Allocation, release and growth on the pool

What the calls that move slots between the free list and their users do to a pool, on a calm handle.

* `efAllocSlotEx_pool`, `efClaimSlot_pool`, `efReturnSlotToPool_pool`: one slot taken from the head,
  from the middle, given back.
* **Growth** (`efGrow_grown`): the new slots are put in front of the free list.
* `Db.Allocated`: what an allocation comes to; `efAllocEx_allocated` is the one that grows the
  database when the pool is empty.
-/

namespace Endfields.Model

open Endfields.Lib

namespace View

/-- The slots in use among the first `n` are as they were. -/
def KeepsUsed (v w : View) (n : ℕ) : Prop :=
  ∀ j, j < n → (v.slots j).status ≠ statusFree → w.slots j = v.slots j

variable {u v w : View} {n n' k : ℕ} {g g' : Geometry} {l l' q : List ℕ}

/-- Nothing was written. -/
lemma KeepsUsed.refl (v : View) (n : ℕ) : v.KeepsUsed v n := fun _ _ _ => rfl

/-- Steps that keep the slots in use compose. -/
lemma KeepsUsed.trans (h : u.KeepsUsed v n) (h' : v.KeepsUsed w n') (hn : n ≤ n') :
    u.KeepsUsed w n := by
  intro j hj hst
  have huv := h j hj hst
  rw [h' j (lt_of_lt_of_le hj hn) (by rw [huv]; exact hst), huv]

/-- From `v` with the free list `l` to `w` with `l'`, the list has lost at most one slot, and the
database has grown only if there was none to be had. -/
structure Draws (g : Geometry) (v : View) (l : List ℕ) (g' : Geometry) (w : View) (l' : List ℕ) :
    Prop where
  length : l.length ≤ l'.length + 1
  core : v.core.Extends w.core
  stays : ¬ v.Dry → g' = g ∧ w.core = v.core

/-- A step that leaves the handle, and takes at most one slot off the list. -/
lemma Draws.of_core (hcore : w.core = v.core) (hlen : l.length ≤ l'.length + 1) :
    Draws g v l g w l' :=
  ⟨hlen, .of_eq hcore, fun _ => ⟨rfl, hcore⟩⟩

/-- `k` allocations find their slots on the list, or a growth of the file leaves the mapping where
it is. -/
def Affords (g : Geometry) (v : View) (l : List ℕ) (k : ℕ) : Prop :=
  (g.n < u32 ∧ k ≤ l.length) ∨ v.core.Steady

/-- No growth that an allocation needs fails. -/
lemma Affords.unfailing (h : v.Affords g l (k + 1)) (hp : v.Pool g l q) (hdry : v.Dry) :
    v.core.Unfailing := by
  rcases h with ⟨hn, hk⟩ | hsteady
  · rw [hp.dry_iff hn] at hdry
    rw [hdry, List.length_nil] at hk
    omega
  · exact hsteady.unfailing

/-- After one of several allocations the others are still afforded, and the mapping is where it
was. -/
lemma Affords.next (h : v.Affords g l (k + 1)) (hp : v.Pool g l q) (hd : Draws g v l g' w l') :
    w.Affords g' l' k ∧ w.core.addr = v.core.addr := by
  rcases h with ⟨hn, hk⟩ | hsteady
  · have hwet : ¬ v.Dry := by
      rw [hp.dry_iff hn]
      rintro rfl
      rw [List.length_nil] at hk
      omega
    obtain ⟨rfl, hcore⟩ := hd.stays hwet
    have hlen := hd.length
    exact ⟨.inl ⟨hn, by omega⟩, by rw [hcore]⟩
  · exact ⟨.inr (hsteady.extends hd.core), hsteady.addr_eq hd.core⟩

/-- What is afforded stays so while the handle is the same and the list gets no shorter. -/
lemma Affords.mono (h : v.Affords g l k) (hcore : w.core = v.core)
    (hlen : l.length + n ≤ l'.length + k) :
    w.Affords g l' n := by
  rcases h with ⟨hn, hk⟩ | hsteady
  · exact .inl ⟨hn, by omega⟩
  · refine .inr ?_
    rw [hcore]
    exact hsteady

end View

namespace Db

variable {g g' : Geometry} {db db₁ : Db} {i n : ℕ} {l q : List ℕ}

/-! ### Release -/

/-- The write section of the index is free on a calm handle. -/
lemma efIndexWriteBegin_calm (h : (db.view g).Calm g) : db.efIndexWriteBegin.1 = .ok := by
  refine (efIndexWriteBegin_ok_iff_of_v5 h.schema).mpr fun hbusy => ?_
  rcases hbusy with hb | hb
  · rw [contended_of_quiet h.quiet] at hb
    cases hb
  · exact hb h.indexLock

/-- With nothing in the way the slot is pushed.
Source: `ef_blob.c`, `ef_return_slot_to_pool` -/
lemma efReturnSlotToPool_calm (h : (db.view g).Calm g) (hi : i < g.n) :
    (db.efReturnSlotToPool i (g.ptr i)).1 = .ok ∧
      (db.efReturnSlotToPool i (g.ptr i)).2.view g = (db.view g).pushSlot g i := by
  have hok : (db.efReturnSlotToPool i (g.ptr i)).1 = .ok :=
    (efReturnSlotToPool_fst (g := g) h.writable i (g.ptr i)).1.trans (efIndexWriteBegin_calm h)
  have hstays := not_removalMoves_of_small h.cap (by rw [h.noIndex]; norm_num) i
  have hstill := (efReturnSlotToPool_spec h.toBound hi hstays hok).still
  exact ⟨hok, hstill.eq h.quiet⟩

/-- **A slot given back** to the pool. -/
lemma efReturnSlotToPool_pool (h : (db.view g).Pool g l q) (hi : i < g.n)
    (hst : ((db.view g).slots i).status ≠ statusFree) (hoff : (db.view g).OffQueue g q i) :
    (db.efReturnSlotToPool i (g.ptr i)).1 = .ok ∧
      ((db.efReturnSlotToPool i (g.ptr i)).2.view g).Pool g (i :: l) q := by
  obtain ⟨hok, hview⟩ := efReturnSlotToPool_calm h.toCalm hi
  rw [hview]
  exact ⟨hok, h.pushSlot hi hst hoff⟩

/-! ### Allocation -/

/-- The lock of the index, when nothing else is at work on the image. -/
lemma efSbIndexWriteLockAcquire_quiet (hs : (db.view g).sb.schemaVersion = schemaVersion)
    (hq : (db.view g).core.contention = []) (hlock : (db.view g).sb.indexWriteLock = 0) :
    db.efSbIndexWriteLockAcquire.1 = .ok ∧ db.efSbIndexWriteLockAcquire.2.view g =
      (db.view g).setSb ((db.view g).sb.setIndexWriteLock 1) := by
  rcases efSbIndexWriteLockAcquire_spec hs with ⟨-, -, hquiet⟩ | ⟨-, hok, hview⟩
  · exact absurd hq (hquiet hlock)
  · rw [hview, View.tick_of_quiet hq]
    exact ⟨hok, rfl⟩

/-- A list without a head, or a count of zero, is no slot for an allocation.
Source: `endfields.c`, `ef_free_list_pop_atomic` -/
lemma efFreeListPopAtomic_of_dry (clear : Bool) (h : db.sb.freeListHead = 0 ∨ db.sb.freeCount = 0) :
    (db.efFreeListPopAtomic clear).1 = .slotFull := by
  unfold efFreeListPopAtomic
  simp only [h, if_true]

/-- **Allocation**, outside transactions and with nothing else at work on the image, takes the head
of the list, or finds nothing. -/
lemma efAllocSlotEx_quiet (h : (db.view g).Bound g)
    (hs : (db.view g).sb.schemaVersion = schemaVersion) (hidle : (db.view g).core.txnActive = false)
    (hq : (db.view g).core.contention = []) (hlock : (db.view g).sb.indexWriteLock = 0) (clear : Bool) :
    let r := db.efAllocSlotEx clear
    ((db.view g).freeHead g = none ∧ r.1 ≠ .ok ∧
        ((db.view g).Dry → r.1 = .slotFull) ∧ r.2.2.view g = db.view g) ∨
      ((db.view g).freeHead g = some r.2.1 ∧ r.1 = .ok ∧
        r.2.2.view g = (db.view g).popSlot clear r.2.1) := by
  have hschema : db.sb.schemaVersion = schemaVersion := hs
  obtain ⟨hok, hview⟩ := efSbIndexWriteLockAcquire_quiet hs hq hlock
  unfold efAllocSlotEx
  simp only [efDbRequireWrite_eq h.writable, hschema, le_refl, decide_true, if_true]
  rcases hr : db.efSbIndexWriteLockAcquire with ⟨e, db₁⟩
  rw [hr] at hok hview
  simp only at hok hview
  subst hok
  have hidle : db₁.txnActive = false := by
    have hc : (db₁.view g).core = (db.view g).core := by rw [hview]; rfl
    exact (congrArg Core.txnActive hc).trans hidle
  have hbound : (db₁.view g).Bound g := by
    rw [hview]
    exact h.congr rfl rfl rfl rfl
  have hschema₁ : (db₁.view g).sb.schemaVersion = schemaVersion := by rw [hview]; exact hs
  have hhead : (db₁.view g).freeHead g = (db.view g).freeHead g := by rw [hview]; rfl
  have hdry : (db₁.view g).Dry ↔ (db.view g).Dry := by rw [hview]; rfl
  simp only
  rcases hfh : (db.view g).freeHead g with _ | i
  · left
    obtain ⟨herr, hpop⟩ := efFreeListPopAtomic_of_none hbound clear (hhead.trans hfh)
    have hfull : (db.view g).Dry → (db₁.efFreeListPopAtomic clear).1 = .slotFull :=
      fun h0 => efFreeListPopAtomic_of_dry clear (hdry.mpr h0)
    generalize db₁.efFreeListPopAtomic clear = r at herr hpop hfull
    obtain ⟨e, j, db₂⟩ := r
    simp only at herr hpop hfull ⊢
    refine ⟨trivial, herr, hfull, ?_⟩
    rw [if_neg (fun hc => herr hc.1), efSbIndexWriteLockRelease_view (by rw [hpop]; exact hschema₁),
      hpop, hview]
    show (db.view g).setSb ((db.view g).sb.setIndexWriteLock 0) = _
    rw [Superblock.setIndexWriteLock_zero hlock, View.setSb_self]
  · right
    obtain ⟨db₂, heq, hpop⟩ := efFreeListPopAtomic_of_some hbound hschema₁ clear (hhead.trans hfh)
    have hidle₂ : db₂.txnActive = false := by
      have hc : (db₂.view g).core = (db₁.view g).core := by rw [hpop]; rfl
      exact (congrArg Core.txnActive hc).trans hidle
    rw [heq]
    simp only [hidle₂, Bool.false_eq_true, and_false, if_false]
    refine ⟨trivial, trivial, ?_⟩
    rw [efSbIndexWriteLockRelease_view (by rw [hpop]; exact hschema₁), hpop, hview]
    exact popSlot_locked (db.view g) clear i hlock

/-- Allocation on a calm handle. -/
lemma efAllocSlotEx_calm (h : (db.view g).Calm g) (clear : Bool) :
    let r := db.efAllocSlotEx clear
    (r.1 ≠ .ok ∧ r.2.2.view g = db.view g) ∨
      ((db.view g).freeHead g = some r.2.1 ∧ r.1 = .ok ∧
        r.2.2.view g = (db.view g).popSlot clear r.2.1) := by
  rcases efAllocSlotEx_quiet h.toBound h.schema h.idle h.quiet h.indexLock clear with
    ⟨-, herr, -, hview⟩ | htaken
  · exact .inl ⟨herr, hview⟩
  · exact .inr htaken

/-- **Allocation**: the head of the list, or an error and the same view.
Source: `endfields.c`, `ef_alloc_slot_ex` -/
lemma efAllocSlotEx_pool (h : (db.view g).Pool g l q) (clear : Bool) :
    let r := db.efAllocSlotEx clear
    (r.1 ≠ .ok ∧ r.2.2.view g = db.view g) ∨
      ∃ l', l = r.2.1 :: l' ∧ r.1 = .ok ∧ r.2.2.view g = (db.view g).popSlot clear r.2.1 := by
  rcases efAllocSlotEx_calm h.toCalm clear with hfail | ⟨hhead, hok, hview⟩
  · exact .inl hfail
  · obtain ⟨l', hl⟩ := h.freeHead hhead
    exact .inr ⟨l', hl, hok, hview⟩

/-- An allocation on a pool fails only where it finds no slot, and says so. -/
lemma efAllocSlotEx_full (h : (db.view g).Pool g l q) (clear : Bool)
    (herr : (db.efAllocSlotEx clear).1 ≠ .ok) :
    (db.view g).Dry ∧ (db.efAllocSlotEx clear).1 = .slotFull := by
  rcases efAllocSlotEx_quiet h.toBound h.schema h.idle h.quiet h.indexLock clear with
    ⟨hnone, -, hfull, -⟩ | ⟨-, hok, -⟩
  · have hdry : (db.view g).Dry := h.dry_of_freeHead hnone
    exact ⟨hdry, hfull hdry⟩
  · exact absurd hok herr

/-- An allocation on a pool fails only where it finds no slot. -/
lemma efAllocSlotEx_dry (h : (db.view g).Pool g l q) (clear : Bool)
    (herr : (db.efAllocSlotEx clear).1 ≠ .ok) : (db.view g).Dry :=
  (efAllocSlotEx_full h clear herr).1

/-! ### Claims -/

/-- The search of `ef_unlink_free_slot` along a segment of the list that leads to the slot: it stops
at the last node of the segment. -/
lemma unlinkFreeSlotLoop_of_linked (h : (db.view g).Bound g) (hi : i < g.n) {L : List ℕ} {d off : ℕ}
    (hl : Linked g.idOf (fun j => ((db.view g).slots j).nextOffset) off (L ++ [d]) (g.ptr i))
    (hni : i ∉ L ++ [d]) (p : ℕ) {guard : ℕ} (hlen : L.length < guard) :
    db.unlinkFreeSlotLoop p (g.ptr i) guard (db.efSlotAtOffset off) =
      (.ok, (db.setNext (g.ptr d) (db.slotAt p).nextOffset).setNext p 0) := by
  induction L generalizing off guard with
  | nil =>
      obtain ⟨guard, rfl⟩ : ∃ k, guard = k + 1 := ⟨guard - 1, by simp at hlen; omega⟩
      obtain ⟨hid, hnext⟩ := hl
      have hd := ((g.idOf_eq_some_iff _ _).mp hid).1
      have hnext' : (db.slot d).nextOffset = g.ptr i := by
        rw [slot_eq h.cap hd]
        exact hnext
      rw [efSlotAtOffset_eq h, hid, unlinkFreeSlotLoop, if_pos hnext', slotPtr_eq h.cap]
  | cons a L ih =>
      rw [List.length_cons] at hlen
      obtain ⟨guard, rfl⟩ : ∃ k, guard = k + 1 := ⟨guard - 1, by omega⟩
      obtain ⟨hid, hrest⟩ := hl
      have ha := ((g.idOf_eq_some_iff _ _).mp hid).1
      have hni' : i ∉ L ++ [d] := fun hm => hni (List.mem_cons_of_mem a hm)
      have hnext : ¬ (db.slot a).nextOffset = g.ptr i := by
        rw [slot_eq h.cap ha]
        intro heq
        obtain ⟨b, hb, hmem⟩ : ∃ b, g.idOf ((db.view g).slots a).nextOffset = some b ∧
            b ∈ L ++ [d] := by
          cases L with
          | nil => exact ⟨d, hrest.1, List.mem_singleton_self d⟩
          | cons b L => exact ⟨b, hrest.1, List.mem_cons_self⟩
        rw [heq, g.idOf_ptr hi] at hb
        exact hni' (Option.some.inj hb ▸ hmem)
      rw [efSlotAtOffset_eq h, hid, unlinkFreeSlotLoop, if_neg hnext, slot_eq h.cap ha]
      exact ih hrest hni' (by omega)

/-- The free count after a claim. -/
lemma view_freeCount_claimed :
    (if 0 < db.sb.freeCount then db.efSbFreeCountDec else db).view g =
      (db.view g).setSb ((db.view g).sb.setFreeCount ((db.view g).sb.freeCount - 1)) := by
  split_ifs with hc
  · exact efSbFreeCountDec_view (Nat.pos_iff_ne_zero.mp hc)
  · have h0 : (db.view g).sb.freeCount = 0 := Nat.eq_zero_of_not_pos hc
    rw [h0]
    show db.view g = (db.view g).setSb { (db.view g).sb with freeCount := 0 }
    rw [← h0]
    rfl

/-- What a claim stores once the slot is off the list. -/
lemma efClaimSlot_of_unlinked (h : (db.view g).Bound g) (hi : i < g.n)
    (hfree : ((db.view g).slots i).status = statusFree)
    (hun : (db.setError .ok).efUnlinkFreeSlot i = (.ok, db₁)) :
    (db.efClaimSlot i).1 = .ok ∧ (db.efClaimSlot i).2.view g =
      ((db₁.view g).setSb ((db₁.view g).sb.setFreeCount ((db₁.view g).sb.freeCount - 1))).setSlot i
        (Slot.sealed (db₁.view g).sb.slotCrc i
          { (db₁.view g).slots i with status := statusUsed }) := by
  have hslot : (db.setError .ok).slotAt (g.ptr i) = (db.view g).slots i := slotAt_eq db hi
  unfold efClaimSlot
  rw [efPeekSlot_of_lt h hi]
  simp only [hslot, hfree, hun]
  refine ⟨rfl, ?_⟩
  show Db.view g (efSlotHeaderCrcStore _ i (g.ptr i)) = _
  rw [view_efSlotHeaderCrcStore hi, view_freeCount_claimed, view_setStatus hi]
  simp

/-- **A claim** of a free slot takes it off the list, from the head or from behind its
predecessor. -/
lemma efClaimSlot_of_linked (h : (db.view g).Bound g) (hi : i < g.n)
    (hfree : ((db.view g).slots i).status = statusFree) {s t : List ℕ} {z : ℕ}
    (hl : Linked g.idOf (fun j => ((db.view g).slots j).nextOffset) (db.view g).sb.freeListHead
      (s ++ i :: t) z) (hnd : (s ++ i :: t).Nodup) (hlen : s.length ≤ g.n) :
    (db.efClaimSlot i).1 = .ok ∧
      ((s = [] ∧ (db.efClaimSlot i).2.view g = (db.view g).popSlot false i) ∨
        ∃ L d, s = L ++ [d] ∧ (db.efClaimSlot i).2.view g = (db.view g).claimAt d i) := by
  have hb : ((db.setError .ok).view g).Bound g := h
  have hb' : (((db.setError .ok).setError .ok).view g).Bound g := h
  have hslot : ((db.setError .ok).setError .ok).slotAt (g.ptr i) = (db.view g).slots i :=
    slotAt_eq db hi
  have hnlt := view_nextOffset_lt db hi
  rcases List.eq_nil_or_concat s with rfl | ⟨L, d, rfl⟩
  · -- the slot is the head of the list
    have hhead : db.sb.freeListHead = g.ptr i := ((g.idOf_eq_some_iff _ _).mp hl.1).2
    have hun : (db.setError .ok).efUnlinkFreeSlot i =
        (.ok, ((((db.setError .ok).setError .ok).setFreeListHead
          ((db.view g).slots i).nextOffset).setNext (g.ptr i) 0)) := by
      unfold efUnlinkFreeSlot
      rw [efPeekSlot_of_lt hb hi]
      simp only [hslot, hfree, ne_eq, not_true, if_false]
      rw [efSlotToOffset_of_lt hb' hi]
      exact if_pos hhead
    obtain ⟨hok, hview⟩ := efClaimSlot_of_unlinked h hi hfree hun
    refine ⟨hok, .inl ⟨rfl, ?_⟩⟩
    rw [hview, view_setNext hi]
    simp [View.popSlot, View.allocated, Nat.mod_eq_of_lt hnlt]
  · -- the slot is behind `d`
    rw [List.concat_eq_append] at hl hnd hlen ⊢
    obtain ⟨y, hlink, hyi⟩ := linked_append.mp hl
    have hy : y = g.ptr i := ((g.idOf_eq_some_iff _ _).mp hyi.1).2
    subst hy
    obtain ⟨o, ho⟩ := hlink.exists_of_mem (List.mem_append_right L (List.mem_singleton_self d))
    have hd : d < g.n := ((g.idOf_eq_some_iff _ _).mp ho).1
    have hni : i ∉ L ++ [d] := fun hm =>
      (List.nodup_append.mp hnd).2.2 i hm i List.mem_cons_self rfl
    have hdi : d ≠ i := fun heq => hni (heq ▸ List.mem_append_right L (List.mem_singleton_self d))
    have hhead : ¬ db.sb.freeListHead = g.ptr i := by
      intro heq
      obtain ⟨b, hb, hmem⟩ : ∃ b, g.idOf db.sb.freeListHead = some b ∧ b ∈ L ++ [d] := by
        cases L with
        | nil => exact ⟨d, hlink.1, List.mem_singleton_self d⟩
        | cons b L => exact ⟨b, hlink.1, List.mem_cons_self⟩
      rw [heq, g.idOf_ptr hi] at hb
      exact hni (Option.some.inj hb ▸ hmem)
    have hguard : L.length < db.sb.maxSlots + 1 := by
      have hmax : db.sb.maxSlots = g.n := h.maxSlots
      rw [List.length_append] at hlen
      omega
    have hun : (db.setError .ok).efUnlinkFreeSlot i =
        (.ok, ((((db.setError .ok).setError .ok).setNext (g.ptr d)
          ((db.view g).slots i).nextOffset).setNext (g.ptr i) 0)) := by
      unfold efUnlinkFreeSlot
      rw [efPeekSlot_of_lt hb hi]
      simp only [hslot, hfree, ne_eq, not_true, if_false]
      rw [efSlotToOffset_of_lt hb' hi, ← hslot]
      exact (if_neg hhead).trans (unlinkFreeSlotLoop_of_linked hb' hi hlink hni _ hguard)
    obtain ⟨hok, hview⟩ := efClaimSlot_of_unlinked h hi hfree hun
    refine ⟨hok, .inr ⟨L, d, rfl, ?_⟩⟩
    rw [hview, view_setNext hi, view_setNext hd]
    simp [View.claimAt, View.allocated, Nat.mod_eq_of_lt hnlt, Function.update_of_ne hdi.symm]

/-- A claim on a pool. -/
lemma efClaimSlot_pool (h : (db.view g).Pool g l q) (hi : i < g.n)
    (hfree : ((db.view g).slots i).status = statusFree) :
    (db.efClaimSlot i).1 = .ok ∧
      (∃ l', ((db.efClaimSlot i).2.view g).Pool g l' q ∧ l.length = l'.length + 1) ∧
      ((db.efClaimSlot i).2.view g).core = (db.view g).core ∧
      (((db.efClaimSlot i).2.view g).slots i).status = statusUsed ∧
      (db.view g).KeepsUsed ((db.efClaimSlot i).2.view g) g.n ∧
      (db.view g).Seals g g ((db.efClaimSlot i).2.view g) := by
  obtain ⟨s, t, hl⟩ := List.append_of_mem ((h.mem_iff i).mpr ⟨hi, hfree⟩)
  subst hl
  have hfree_ne : ∀ j, ((db.view g).slots j).status ≠ statusFree → j ≠ i := by
    rintro j hj rfl
    exact hj hfree
  have hlen : s.length ≤ g.n := by
    have hle := h.length_le
    rw [List.length_append] at hle
    omega
  obtain ⟨hok, ⟨rfl, hview⟩ | ⟨L, d, rfl, hview⟩⟩ :=
    efClaimSlot_of_linked h.toBound hi hfree h.linked h.nodup hlen
  · rw [hview]
    refine ⟨hok, ⟨t, h.popSlot, rfl⟩, rfl, by rw [View.popSlot_status, if_pos rfl], fun j _ hj => ?_,
      View.Seals.popSlot false i⟩
    unfold View.popSlot
    rw [View.setSlot_slots, Function.update_of_ne (hfree_ne j hj)]
    rfl
  · rw [List.append_assoc] at h
    have hdfree := h.free (i := d) (by simp)
    rw [hview]
    refine ⟨hok, ⟨L ++ d :: t, h.claimAt, ?_⟩, rfl, ?_, fun j _ hj => ?_, View.Seals.claimAt hdfree⟩
    · simp only [List.length_append, List.length_cons, List.length_nil]
      omega
    · unfold View.claimAt
      rw [View.setSlot_slots, Function.update_self]
      exact Slot.sealed_status _ _ _
    · have hjd : j ≠ d := by
        rintro rfl
        exact hj hdfree
      unfold View.claimAt
      rw [View.setSlot_slots, Function.update_of_ne (hfree_ne j hj), View.setSlot_slots,
        Function.update_of_ne hjd]
      rfl

/-! ### Growth -/

/-- A new slot is pushed on the list.
Source: `ef_grow.c`, `ef_grow_append_slots` -/
lemma view_appendSlot (h : (db.view g).Bound g) (hi : i < g.n) :
    (db.appendSlot i).view g = (db.view g).pushSlot g i := by
  have hmax : (db.view g).sb.maxSlots = g.n := h.maxSlots
  have hptr : g.ptr i % u64 = g.ptr i := Nat.mod_eq_of_lt (g.ptr_lt_u64 hi)
  unfold appendSlot
  rw [slotPtr_eq h.cap]
  simp only
  generalize hdb₂ : (((db.zero (g.ptr i) 64).setStatus (g.ptr i) statusFree).setNext (g.ptr i)
    ((db.zero (g.ptr i) 64).setStatus (g.ptr i) statusFree).sb.freeListHead) = db₂
  have hview₂ : db₂.view g = (db.view g).setSlot i (db.view g).released := by
    rw [← hdb₂, sb_eq g, view_setNext hi, view_setStatus hi, view_zero_slot hi]
    simp [View.released, Nat.mod_eq_of_lt (freeListHead_lt g db)]
  have hb₂ : (db₂.view g).Bound g := by rwa [hview₂, View.bound_setSlot]
  rw [efSbFreeCountInc_view, view_setFreeListHead, hview₂, efSlotToOffset_of_lt hb₂ hi, hptr]
  rfl

/-- Appending slots stores into the image alone. -/
lemma core_appendSlotsLoop (db : Db) (m k : ℕ) : (db.appendSlotsLoop m k).core = db.core := by
  induction k generalizing db m with
  | zero => rfl
  | succ k ih => exact (ih (db.appendSlot m) (m + 1)).trans rfl

/-- Appending the slots from `m` on completes the pool. -/
lemma appendSlotsLoop_growing {m k : ℕ} (h : (db.view g).Growing g m l q) (hk : m + k = g.n) :
    ∃ l', ((db.appendSlotsLoop m k).view g).Pool g l' q ∧
      (∀ j, j < m → ((db.appendSlotsLoop m k).view g).slots j = (db.view g).slots j) ∧
      ((db.appendSlotsLoop m k).view g).sb.slotCrc = (db.view g).sb.slotCrc ∧
      ∀ j, m ≤ j → j < g.n → (((db.appendSlotsLoop m k).view g).slots j).status = statusFree := by
  induction k generalizing db m l with
  | zero =>
      have hm : m = g.n := by omega
      subst hm
      exact ⟨l, h.pool, fun _ _ => rfl, rfl, fun j hj hj' => absurd hj' (by omega)⟩
  | succ k ih =>
      have hm : m < g.n := by omega
      have hview := view_appendSlot h.toBound hm
      have hstep : ((db.appendSlot m).view g).Growing g (m + 1) (m :: l) q := by
        rw [hview]
        exact h.append hm
      obtain ⟨l', hpool, hslots, hcrc, hfree⟩ := ih hstep (by omega)
      rw [hview] at hslots hcrc
      have hflags : ((db.view g).pushSlot g m).sb.flags = (db.view g).sb.flags := rfl
      have hsame : ((db.view g).pushSlot g m).sb.slotCrc = (db.view g).sb.slotCrc :=
        congrArg (Nat.testBit · flagSlotCrcBit) hflags
      refine ⟨l', hpool, fun j hj => ?_, hcrc.trans hsame, fun j hj hj' => ?_⟩
      · have hrest := hslots j (by omega)
        rw [View.pushSlot_slots_of_ne (by omega)] at hrest
        exact hrest
      · by_cases hjm : j = m
        · have hself := hslots m (by omega)
          rw [View.pushSlot_slots_self] at hself
          rw [hjm]
          show ((((db.appendSlot m).appendSlotsLoop (m + 1) k).view g).slots m).status = statusFree
          rw [hself]
          rfl
        · exact hfree j (by omega) hj'

/-- Two images that agree up to the end of the slots show the same superblock and slots. -/
lemma view_of_agree (hmem : ∀ x, x < g.undoBase → db₁.mem x = db.mem x) :
    db₁.sb = db.sb ∧ (db₁.view g).slots = (db.view g).slots := by
  have hb := g.base_ge
  refine ⟨Superblock.read_congr fun x hx => hmem x ?_, Geometry.slots_of_agree fun x _ hx => hmem x hx⟩
  unfold Geometry.undoBase
  omega

/-- A slot lies where it did, in an image with more slots. -/
lemma slots_of_le (hcap : g'.cap = g.cap) (hn : g.n ≤ g'.n) (db : Db) {j : ℕ} (hj : j < g.n) :
    (db.view g').slots j = (db.view g).slots j := by
  rw [← slotAt_eq db hj, ← slotAt_eq db (lt_of_lt_of_le hj hn), View.ptr_of_cap_eq hcap]

/-- The appending part of a growth, on an image that has room for the slots of `g'`. -/
lemma efGrowAppendSlots_pool (h : (db.view g).Pool g l q) (hcap : g'.cap = g.cap) (hn : g.n ≤ g'.n)
    (hmem : ∀ x, x < g.undoBase → db₁.mem x = db.mem x) (hcore : db₁.core =
      { db.core with
        fileSize := g'.size, mapCapacity := db₁.mapCapacity, undoLogBase := db₁.undoLogBase }) :
    ∃ l', ((db₁.efGrowAppendSlots g.n g'.n).2.view g').Pool g' l' q ∧
      (∀ j, j < g.n →
        ((db₁.efGrowAppendSlots g.n g'.n).2.view g').slots j = (db.view g).slots j) ∧
      (∀ j, g.n ≤ j → j < g'.n →
        (((db₁.efGrowAppendSlots g.n g'.n).2.view g').slots j).status = statusFree) ∧
      (db.view g).Seals g g' ((db₁.efGrowAppendSlots g.n g'.n).2.view g') := by
  obtain ⟨hsb, hslots⟩ := view_of_agree hmem
  have hsize := g'.size_eq
  have hmax : g'.n % u64 = g'.n := by
    have hs := g'.size_lt
    unfold Geometry.undoBase at hsize
    exact Nat.mod_eq_of_lt (by omega)
  have hview : (db₁.setMaxSlots g'.n).view g' =
      (db₁.view g').setSb ((db.view g).sb.setMaxSlots g'.n) := by
    rw [view_setMaxSlots, hmax]
    exact congrArg (fun sb => (db₁.view g').setSb (sb.setMaxSlots g'.n)) hsb
  have hold : ∀ j, j < g.n → ((db₁.setMaxSlots g'.n).view g').slots j = (db.view g).slots j := by
    intro j hj
    rw [hview, View.setSb_slots, slots_of_le hcap hn db₁ hj, hslots]
  have hcalm : ((db₁.setMaxSlots g'.n).view g').Calm g' := by
    have hc : ((db₁.setMaxSlots g'.n).view g').core = db₁.core := by rw [hview]; rfl
    refine ⟨⟨?_, ?_, ?_, ?_⟩, ?_, ?_, hcap.trans h.noIndex, ?_, ?_, ?_, ?_, ?_, ?_⟩
    · rw [hc, hcore, hcap]
      exact h.cap
    · rw [hc, hcore]
      show g'.undoBase ≤ g'.size
      omega
    · rw [hc, hcore]
      exact h.writable
    · rw [hview]
      rfl
    · rw [hc, hcore]
      exact h.mapped
    · rw [hview]
      exact h.schema
    · rw [hview]
      exact h.noTable
    · rw [hc, hcore]
      exact h.undoSlots
    · rw [hc, hcore]
      exact h.idle
    · rw [hc, hcore]
      exact h.quiet
    · rw [hview]
      exact h.queueLock
    · rw [hview]
      exact h.indexLock
  have hgrow := h.growing hcalm hn hold (by rw [hview]; rfl) (by rw [hview]; rfl)
    (by rw [hview]; rfl) (by rw [hview]; rfl)
  obtain ⟨l', hpool, hkept, hcrc, hfree⟩ := appendSlotsLoop_growing hgrow (k := g'.n - g.n) (by omega)
  have hseal : ∀ j, g.n ≤ j → j < g'.n →
      (((db₁.efGrowAppendSlots g.n g'.n).2.view g').slots j).Sealed j := by
    intro j hj hj'
    refine Slot.sealed_of_noCrc ?_
    have hst : (((db₁.efGrowAppendSlots g.n g'.n).2.view g').slots j).status = statusFree :=
      hfree j hj hj'
    rw [hst]
    rfl
  have hkept' : ∀ j, j < g.n →
      ((db₁.efGrowAppendSlots g.n g'.n).2.view g').slots j = (db.view g).slots j :=
    fun j hj => (hkept j hj).trans (hold j hj)
  rw [hview] at hcrc
  have hflags : ((db.view g).sb.setMaxSlots g'.n).flags = (db.view g).sb.flags := rfl
  have hsame : ((db.view g).sb.setMaxSlots g'.n).slotCrc = (db.view g).sb.slotCrc :=
    congrArg (Nat.testBit · flagSlotCrcBit) hflags
  exact ⟨l', hpool, hkept', hfree,
    View.Seals.of_slots (hcrc.trans hsame) (fun j hj _ => .inl (hkept' j hj)) hseal⟩

/-- The size that the code computes for a layout is the size of its geometry. -/
lemma efExpectedFileSize_eq (g : Geometry) :
    efExpectedFileSize g.n g.cap undoLogDefaultSlots = g.size := by
  have hs := g.size_lt
  have hsize : 64 + g.cap * 16 + g.n * 64 + 32 + undoLogDefaultSlots * 32 = g.size := by
    rw [g.size_eq]
    unfold Geometry.undoBase Geometry.base
    simp only [undoLogDefaultSlots]
    omega
  unfold efExpectedFileSize
  rw [hsize]
  exact Nat.mod_eq_of_lt hs

/-- The handle is bound again after its file has grown; the table is still of size zero. -/
lemma core_efDbBindSlotsLayout (h : (db.view g).Calm g) (db₁ : Db) (hsb : db₁.sb = db.sb) :
    (db₁.efDbBindSlotsLayout).core = { db₁.core with
      hashCapacity := 0
      undoLogBase := db₁.efDbBindSlotsLayout.undoLogBase
      undoLogSlots := undoLogDefaultSlots } := by
  have hs : (Superblock.read db₁.mem).schemaVersion = schemaVersion := by
    show db₁.sb.schemaVersion = schemaVersion
    rw [hsb]
    exact h.schema
  have hcap : load db₁.mem 56 2 = 0 := by
    show db₁.sb.hashCap = 0
    rw [hsb]
    exact h.noTable
  have hload : efHashCapacityFromSb db₁.mem = 0 := by
    unfold efHashCapacityFromSb efSbHashCapacityLoad
    rw [hs, if_neg (by norm_num), if_pos le_rfl, hcap]
  show Core.mk _ _ _ _ (efHashCapacityFromSb db₁.mem) _ _ _ _ _ _ _ _ = _
  rw [hload]
  rfl

/-- A file that is resized keeps its bytes; where the system calls succeed, a call that fails
changes nothing. -/
lemma efPortGrowFile_cases (hgrow : db.env.growFileErr = none) (size : ℕ) :
    db.efPortGrowFile size = (.grow, db) ∨
      ∃ m, db.efPortGrowFile size =
          (.ok, { db with mem := m, fileSize := size, mapCapacity := size }) ∧ db.fileSize < size ∧
        ∀ x, x < db.fileSize → m x = db.mem x := by
  unfold efPortGrowFile
  by_cases hsmall : size ≤ db.fileSize
  · exact .inl (if_pos hsmall)
  rw [if_neg hsmall, hgrow]
  exact .inr ⟨_, rfl, not_le.mp hsmall, fun x hx => memset_apply_of_outside (.inl hx)⟩

/-- A growth that has room appends the new slots to an image that is otherwise as it was. -/
lemma efGrow_roomy (h : (db.view g).Pool g l q) {g' : Geometry} (hgcap : g'.cap = g.cap)
    (hlt : g.n < g'.n)
    (hcap₁ : db₁.hashCapacity = 0) (hslots₁ : db₁.undoLogSlots = undoLogDefaultSlots)
    (hmem : ∀ x, x < g.undoBase → db₁.mem x = db.mem x) (hcore : db₁.core =
      { db.core with
        fileSize := g'.size, mapCapacity := db₁.mapCapacity, undoLogBase := db₁.undoLogBase })
    (hfile : db.backend = .file → db.fileSize ≤ g'.size) :
    let oldSize := efExpectedFileSize g.n db₁.hashCapacity db₁.undoLogSlots
    let db₂ := ((db₁.zero oldSize ((g'.size + (u64 - oldSize)) % u64)).efGrowAppendSlots g.n g'.n).2
    (∃ l', (db₂.view g').Pool g' l' q) ∧
      (∀ j, j < g.n → (db₂.view g').slots j = (db.view g).slots j) ∧
      (∀ j, g.n ≤ j → j < g'.n → ((db₂.view g').slots j).status = statusFree) ∧
      (db.view g).Seals g g' (db₂.view g') ∧ (db.view g).core.Extends (db₂.view g').core := by
  have hgsize := g.size_eq
  have hos : efExpectedFileSize g.n db₁.hashCapacity db₁.undoLogSlots = g.size := by
    rw [hcap₁, hslots₁, ← h.noIndex]
    exact efExpectedFileSize_eq g
  rw [hos]
  intro oldSize db₂
  have hmem₂ : ∀ x, x < g.undoBase →
      (db₁.zero oldSize ((g'.size + (u64 - oldSize)) % u64)).mem x = db.mem x := by
    intro x hx
    rw [← hmem x hx]
    exact memset_apply_of_outside (.inl (by omega))
  obtain ⟨l', hpool, hkept, hfree, hseals⟩ := efGrowAppendSlots_pool h hgcap hlt.le hmem₂ hcore
  have hcore₂ : (db₂.view g').core = db₁.core := core_appendSlotsLoop _ _ _
  refine ⟨⟨l', hpool⟩, hkept, hfree, hseals, ?_⟩
  rw [hcore₂, hcore]
  exact ⟨rfl, rfl, rfl, rfl, hfile⟩

/-- **Growth** puts the new slots in front of the free list, or changes nothing. -/
lemma efGrow_grown (h : (db.view g).Pool g l q) (g' : Geometry) (hcap : g'.cap = 0)
    (hgrow : g.n < g'.n → (db.view g).core.Unfailing) :
    let r := db.efGrow g'.n
    (r.1 ≠ .ok ∧ r.2.view g = db.view g) ∨
      (r.1 = .ok ∧ g.n < g'.n ∧ (∃ l', (r.2.view g').Pool g' l' q) ∧
        (∀ j, j < g.n → (r.2.view g').slots j = (db.view g).slots j) ∧
        (∀ j, g.n ≤ j → j < g'.n → ((r.2.view g').slots j).status = statusFree) ∧
        (db.view g).Seals g g' (r.2.view g') ∧ (db.view g).core.Extends (r.2.view g').core) := by
  have hmax : db.sb.maxSlots = g.n := h.maxSlots
  have hidle : db.txnActive = false := h.idle
  have hc0 : db.hashCapacity = 0 := h.cap.trans h.noIndex
  have hslots : db.undoLogSlots = undoLogDefaultSlots := h.undoSlots
  have hnew : efExpectedFileSize g'.n db.hashCapacity db.undoLogSlots = g'.size := by
    rw [hc0, hslots, ← hcap]
    exact efExpectedFileSize_eq g'
  have hfile : g.undoBase ≤ db.fileSize := h.inFile
  have hgcap : g'.cap = g.cap := hcap.trans h.noIndex.symm
  unfold efGrow
  rw [efDbRequireWrite_eq h.writable]
  simp only
  rw [if_neg (by rw [hidle]; exact Bool.false_ne_true), hmax, hnew]
  by_cases hle : g'.n ≤ g.n
  · rw [if_pos hle]
    exact .inl ⟨fun h0 => (by cases h0), rfl⟩
  rw [if_neg hle]
  have hlt : g.n < g'.n := by omega
  by_cases hmemory : db.backend = .memory ∧ db.mapCapacity < g'.size
  · rw [if_pos hmemory]
    exact .inl ⟨fun h0 => (by cases h0), rfl⟩
  rw [if_neg hmemory]
  rcases hb : db.backend with _ | _
  · -- a file is resized, and bound again
    simp only
    rcases efPortGrowFile_cases (hgrow hlt hb) g'.size with heq | ⟨m, heq, hsize, hm⟩
    · rw [heq]
      exact .inl ⟨fun h0 => (by cases h0), rfl⟩
    rw [heq]
    simp only
    by_cases hfault : objectMax ≤ 64 * g'.n
    · rw [if_pos hfault]
      exact .inl ⟨fun h0 => (by cases h0), rfl⟩
    rw [if_neg hfault]
    have hmem : ∀ x, x < g.undoBase → m x = db.mem x := fun x hx => hm x (by omega)
    have hcore := core_efDbBindSlotsLayout h.toCalm { db with
      mem := m, fileSize := g'.size, mapCapacity := g'.size } (view_of_agree (g := g) hmem).1
    refine .inr ⟨rfl, hlt, efGrow_roomy h hgcap hlt (congrArg Core.hashCapacity hcore) rfl hmem
      (hcore.trans ?_) fun _ => hsize.le⟩
    show Core.mk _ _ _ _ _ _ _ _ _ _ _ _ _ = Core.mk _ _ _ _ _ _ _ _ _ _ _ _ _
    rw [← hc0, ← hslots]
    rfl
  · simp only
    by_cases hfault : objectMax ≤ 64 * g'.n
    · rw [if_pos hfault]
      exact .inl ⟨fun h0 => (by cases h0), rfl⟩
    rw [if_neg hfault]
    refine .inr ⟨rfl, hlt, efGrow_roomy h hgcap hlt hc0 hslots (fun _ _ => rfl) ?_
      fun hf => absurd (hb.symm.trans hf) (by simp)⟩
    unfold core
    rw [hb]

/-- A growth checks no slot. -/
lemma efGrow_ne_badChecksum (h : (db.view g).Bound g) (hgrow : (db.view g).core.Unfailing) (m : ℕ) :
    (db.efGrow m).1 ≠ .badChecksum := by
  unfold efGrow
  rw [efDbRequireWrite_eq h.writable]
  simp only
  by_cases htxn : db.txnActive = true
  · rw [if_pos htxn]
    simp
  rw [if_neg htxn]
  by_cases hle : m ≤ db.sb.maxSlots
  · rw [if_pos hle]
    simp
  rw [if_neg hle]
  by_cases hmemory : db.backend = .memory ∧
      db.mapCapacity < efExpectedFileSize m db.hashCapacity db.undoLogSlots
  · rw [if_pos hmemory]
    simp
  rw [if_neg hmemory]
  -- with room for them, the new slots are appended, or reach too far
  rcases hb : db.backend with _ | _
  · simp only
    rcases efPortGrowFile_cases (hgrow hb)
        (efExpectedFileSize m db.hashCapacity db.undoLogSlots) with heq | ⟨mem, heq, -, -⟩
    · rw [heq]
      simp
    · rw [heq]
      simp only
      split_ifs <;> simp [efGrowAppendSlots]
  · simp only
    split_ifs <;> simp [efGrowAppendSlots]

/-- Growth on a pool, without what becomes of the new slots. -/
lemma efGrow_pool (h : (db.view g).Pool g l q) (g' : Geometry) (hcap : g'.cap = 0)
    (hgrow : g.n < g'.n → (db.view g).core.Unfailing) :
    let r := db.efGrow g'.n
    (r.1 ≠ .ok ∧ r.2.view g = db.view g) ∨
      (g.n < g'.n ∧ (∃ l', (r.2.view g').Pool g' l' q) ∧
        (∀ j, j < g.n → (r.2.view g').slots j = (db.view g).slots j) ∧
        (db.view g).Seals g g' (r.2.view g') ∧ (db.view g).core.Extends (r.2.view g').core) := by
  rcases efGrow_grown h g' hcap hgrow with hfail | ⟨-, hlt, hpool, hkept, -, hseals, hext⟩
  · exact .inl hfail
  · exact .inr ⟨hlt, hpool, hkept, hseals, hext⟩

/-! ### Allocation with growth -/

/-- A popped slot was not in use. -/
lemma popSlot_keepsUsed {v : View} {clear : Bool} (h : v.Pool g (i :: l) q) (n : ℕ) :
    v.KeepsUsed (v.popSlot clear i) n := by
  intro j _ hj
  have hji : j ≠ i := by
    rintro rfl
    exact hj (h.free List.mem_cons_self)
  unfold View.popSlot
  rw [View.setSlot_slots, Function.update_of_ne hji]
  rfl

/-- The layout of `n` slots without a table does not overflow. -/
def roomFor (n : ℕ) : Prop := 64 + 64 * n + undoLogBytes undoLogDefaultSlots < u64

instance (n : ℕ) : Decidable (roomFor n) := inferInstanceAs (Decidable (_ < _))

/-- The geometry of `n` slots without a table. -/
def plain {n : ℕ} (h : roomFor n) : Geometry := ⟨0, n, by unfold roomFor at h; omega⟩

/-- Room for `n` slots is room for fewer. -/
lemma roomFor_of_le {m : ℕ} (h : roomFor n) (hm : m ≤ n) : roomFor m := by
  unfold roomFor at *
  omega

/-- What an allocation on a pool of `g` comes to: a pool of at most one slot more and at most one
free slot less, in which the slot allocated is in use and the slots that were in use are as they
were. -/
structure Allocated (g : Geometry) (l q : List ℕ) (db : Db) (r : Err × ℕ × Db) (g' : Geometry)
    (l' : List ℕ) : Prop where
  le : g.n ≤ g'.n
  le_succ : g'.n ≤ g.n + 1
  pool : (r.2.2.view g').Pool g' l' q
  kept : (db.view g).KeepsUsed (r.2.2.view g') g.n
  lt : r.1 = .ok → r.2.1 < g'.n
  used : r.1 = .ok → ((r.2.2.view g').slots r.2.1).status = statusUsed
  fresh : r.1 = .ok → r.2.1 < g.n → ((db.view g).slots r.2.1).status = statusFree
  draws : View.Draws g (db.view g) l g' (r.2.2.view g') l'

/-- An allocation that fails and changes nothing. -/
lemma Allocated.of_fail {r : Err × ℕ × Db} (h : (db.view g).Pool g l q) (herr : r.1 ≠ .ok)
    (hview : r.2.2.view g = db.view g) : Allocated g l q db r g l where
  le := le_rfl
  le_succ := Nat.le_succ _
  pool := by
    rw [hview]
    exact h
  kept := by
    rw [hview]
    exact View.KeepsUsed.refl _ _
  lt h0 := absurd h0 herr
  used h0 := absurd h0 herr
  fresh h0 := absurd h0 herr
  draws := View.Draws.of_core (by rw [hview]) (Nat.le_succ _)

/-- `efAllocSlotEx_pool`, as the outcome of a call.
Source: `endfields.c`, `ef_alloc_slot_ex` -/
lemma efAllocSlotEx_allocated (h : (db.view g).Pool g l q) (clear : Bool) :
    ∃ l', Allocated g l q db (db.efAllocSlotEx clear) g l' ∧
      (db.view g).Seals g g ((db.efAllocSlotEx clear).2.2.view g) := by
  rcases efAllocSlotEx_pool h clear with ⟨herr, hview⟩ | ⟨l', hl, hok, hview⟩
  · exact ⟨l, .of_fail h herr hview, View.Seals.of_eq hview⟩
  · have h' : (db.view g).Pool g ((db.efAllocSlotEx clear).2.1 :: l') q := hl ▸ h
    have hcore : ((db.efAllocSlotEx clear).2.2.view g).core = (db.view g).core := by
      rw [hview]
      rfl
    refine ⟨l', ⟨le_rfl, Nat.le_succ _, ?_, ?_, fun _ => h'.lt List.mem_cons_self, fun _ => ?_,
      fun _ _ => h'.free List.mem_cons_self, .of_core hcore (by rw [hl, List.length_cons])⟩,
      hview ▸ View.Seals.popSlot clear _⟩
    · rw [hview]
      exact h'.popSlot
    · rw [hview]
      exact popSlot_keepsUsed h' g.n
    · rw [hview, View.popSlot_status, if_pos rfl]

/-- **Allocation with growth**: a database that has no free slot gets one more. -/
lemma efAllocEx_allocated (h : (db.view g).Pool g l q) (hroom : roomFor (g.n + 1))
    (hgrow : (db.view g).Dry → (db.view g).core.Unfailing) (clear : Bool) :
    ∃ g' l', Allocated g l q db (db.efAllocEx clear) g' l' ∧
      (db.view g).Seals g g' ((db.efAllocEx clear).2.2.view g') := by
  have hmax : db.sb.maxSlots = g.n := h.maxSlots
  unfold efAllocEx
  obtain ⟨l₁, h₁, hseals₁⟩ := efAllocSlotEx_allocated h clear
  have hdry := efAllocSlotEx_dry h clear
  rcases efAllocSlotEx_pool h clear with ⟨herr, hview⟩ | ⟨l', hl, hok, -⟩
  swap
  · generalize db.efAllocSlotEx clear = r at h₁ hseals₁ hok
    obtain ⟨e, i, db₁⟩ := r
    simp only at hok
    subst hok
    exact ⟨g, l₁, h₁, hseals₁⟩
  replace hdry := hdry herr
  generalize db.efAllocSlotEx clear = r at h₁ hseals₁ herr hview
  obtain ⟨e, i, db₁⟩ := r
  simp only at herr hview
  by_cases hfull : e = .slotFull
  swap
  · cases e <;> first | exact absurd rfl hfull | exact ⟨g, l₁, h₁, hseals₁⟩
  subst hfull
  have hpool₁ : (db₁.view g).Pool g l q := by rwa [hview]
  have hmax₁ : (db₁.sb.maxSlots + 1) % u64 = (plain hroom).n := by
    have hm : db₁.sb.maxSlots = g.n := hpool₁.maxSlots
    rw [hm]
    refine Nat.mod_eq_of_lt ?_
    unfold roomFor at hroom
    omega
  have hgrow₁ : g.n < (plain hroom).n → (db₁.view g).core.Unfailing := by
    rw [hview]
    exact fun _ => hgrow hdry
  simp only
  rw [hmax₁]
  rcases efGrow_pool hpool₁ (plain hroom) rfl hgrow₁ with
    ⟨hgerr, hgview⟩ | ⟨hlt, ⟨l', hpool⟩, hkept, hseals, hext⟩
  · generalize db₁.efGrow (plain hroom).n = r at hgerr hgview
    obtain ⟨e, db₂⟩ := r
    simp only at hgerr hgview
    have hsame : db₂.view g = db.view g := hgview.trans hview
    have hfail : Allocated g l q db (e, 0, db₂) g l := .of_fail h hgerr hsame
    have hseals : (db.view g).Seals g g (db₂.view g) := View.Seals.of_eq hsame
    cases e <;> first | exact absurd rfl hgerr | exact ⟨g, l, hfail, hseals⟩
  · rw [hview] at hseals hext
    generalize db₁.efGrow (plain hroom).n = r at hpool hkept hseals hext
    obtain ⟨e, db₂⟩ := r
    simp only at hpool hkept hseals hext
    have hused : (db.view g).KeepsUsed (db₂.view (plain hroom)) g.n := by
      intro j hj _
      rw [hkept j hj, hview]
    have hlen := hpool₁.length_le_grown hpool hlt.le fun j hj => hkept j hj
    cases e with
    | ok =>
        obtain ⟨l₂, h₂, hseals₂⟩ := efAllocSlotEx_allocated hpool clear
        refine ⟨plain hroom, l₂, ⟨hlt.le, le_rfl, h₂.pool, hused.trans h₂.kept hlt.le, h₂.lt,
          h₂.used, fun hok hi => ?_, hlen.trans h₂.draws.length, hext.trans h₂.draws.core,
          fun hwet => absurd hdry hwet⟩, hseals.trans hseals₂⟩
        have hfree := h₂.fresh hok (lt_of_lt_of_le hi hlt.le)
        rw [hkept _ hi, hview] at hfree
        exact hfree
    | _ =>
        exact ⟨plain hroom, l', ⟨hlt.le, le_rfl, hpool, hused, fun h0 => (by cases h0),
          fun h0 => (by cases h0), fun h0 => (by cases h0), hlen.trans (Nat.le_succ _), hext,
          fun hwet => absurd hdry hwet⟩, hseals⟩

end Db

end Endfields.Model
