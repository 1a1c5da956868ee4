import Endfields.Spec.Open

/-!
# The rebuilt free list

Every writable open makes the free list anew, out of the statuses of the slots, and computes the
checksums again.

* `View.freeIds v n`: the `FREE` slots among the first `n`.
* `View.Relinked`: the free slots have new links, along which they form a list.
* **`Db.efRebuildFreeList_spec`**: the rebuilt image has the free slots on the free list, in order,
  and the slots with a checksum carry the one that is computed for them; nothing else is changed.
-/

namespace Endfields.Model

open Endfields.Lib

namespace View

variable {g : Geometry} {v w : View} {i k : ℕ}

/-- The `FREE` slots among the first `n`, in order. -/
def freeIds (v : View) (n : ℕ) : List ℕ :=
  (List.range n).filter fun i => (v.slots i).status = statusFree

/-- The FREE slots among the first `n`. -/
lemma mem_freeIds {n : ℕ} : i ∈ v.freeIds n ↔ i < n ∧ (v.slots i).status = statusFree := by
  unfold freeIds
  rw [List.mem_filter, List.mem_range, decide_eq_true_iff]

/-- Every FREE slot is counted once. -/
lemma nodup_freeIds (v : View) (n : ℕ) : (v.freeIds n).Nodup := List.nodup_range.filter _

/-- The FREE slots depend on the statuses alone. -/
lemma freeIds_congr {n : ℕ} (h : ∀ i, i < n → (w.slots i).status = (v.slots i).status) :
    w.freeIds n = v.freeIds n := by
  unfold freeIds
  refine List.filter_congr fun i hi => ?_
  rw [h i (List.mem_range.mp hi)]

/-- A FREE slot is added at the end. -/
lemma freeIds_succ_of_free (h : (v.slots k).status = statusFree) :
    v.freeIds (k + 1) = v.freeIds k ++ [k] := by
  unfold freeIds
  rw [List.range_succ, List.filter_append, List.filter_singleton, decide_eq_true h]
  rfl

/-- Any other slot is skipped. -/
lemma freeIds_succ_of_ne (h : (v.slots k).status ≠ statusFree) : v.freeIds (k + 1) = v.freeIds k := by
  unfold freeIds
  rw [List.range_succ, List.filter_append, List.filter_singleton, decide_eq_false h]
  exact List.append_nil _

/-- The `FREE` slots among the first `k` have new links; they lead from the head of the free list to
`z`. -/
structure Relinked (g : Geometry) (v : View) (k z : ℕ) (w : View) : Prop where
  core : w.core = v.core
  seg : w.seg = v.seg
  sb : w.sb = v.sb.setFreeListHead w.sb.freeListHead
  slots : ∀ i, w.slots i = if i < k ∧ (v.slots i).status = statusFree then
    { v.slots i with nextOffset := (w.slots i).nextOffset } else v.slots i
  linked : Linked g.idOf (fun i => (w.slots i).nextOffset) w.sb.freeListHead (v.freeIds k) z

/-- Before the first round nothing is linked.
Source: `endfields.c`, `ef_rebuild_free_list` -/
lemma Relinked.zero (g : Geometry) (v : View) : v.Relinked g 0 v.sb.freeListHead v where
  core := rfl
  seg := rfl
  sb := rfl
  slots i := by rw [if_neg fun h => absurd h.1 (Nat.not_lt_zero i)]
  linked := rfl

/-- A slot that is not free is passed over. -/
lemma Relinked.succ_of_ne {z : ℕ} (h : v.Relinked g k z w) (hk : (v.slots k).status ≠ statusFree) :
    v.Relinked g (k + 1) z w where
  core := h.core
  seg := h.seg
  sb := h.sb
  slots i := by
    have hi := h.slots i
    by_cases hc : i < k + 1 ∧ (v.slots i).status = statusFree
    · have hne : i ≠ k := fun heq => hk (heq ▸ hc.2)
      rw [if_pos (⟨by omega, hc.2⟩ : i < k ∧ _)] at hi
      rw [if_pos hc]
      exact hi
    · rw [if_neg fun hc' => hc ⟨by omega, hc'.2⟩] at hi
      rw [if_neg hc]
      exact hi
  linked := by
    rw [freeIds_succ_of_ne hk]
    exact h.linked

/-- A free slot is put in front of the list, before the slots below it are. -/
lemma Relinked.succ_of_free (hk : k < g.n) (hfree : (v.slots k).status = statusFree)
    (h : ((v.setSlot k { v.slots k with nextOffset := v.sb.freeListHead }).setSb
      (v.sb.setFreeListHead (g.ptr k))).Relinked g k (g.ptr k) w) :
    v.Relinked g (k + 1) v.sb.freeListHead w := by
  have hslots := h.slots
  have hlinked := h.linked
  simp only [setSb_slots, setSlot_slots] at hslots hlinked
  have hself : w.slots k = { v.slots k with nextOffset := v.sb.freeListHead } := by
    rw [hslots k, if_neg (by omega), Function.update_self]
  have hsame : ((v.setSlot k { v.slots k with nextOffset := v.sb.freeListHead }).setSb
      (v.sb.setFreeListHead (g.ptr k))).freeIds k = v.freeIds k :=
    freeIds_congr fun i hi => by
      rw [setSb_slots, setSlot_slots, Function.update_of_ne (by omega)]
  refine ⟨h.core, h.seg, ?_, fun i => ?_, ?_⟩
  · exact h.sb.trans rfl
  · by_cases hik : i = k
    · subst hik
      rw [if_pos ⟨by omega, hfree⟩, hself]
    · have hi := hslots i
      rw [Function.update_of_ne hik] at hi
      by_cases hc : i < k ∧ (v.slots i).status = statusFree
      · rw [if_pos hc] at hi
        rw [if_pos ⟨by omega, hc.2⟩]
        exact hi
      · rw [if_neg hc] at hi
        rw [if_neg fun hc' => hc ⟨by omega, hc'.2⟩]
        exact hi
  · rw [freeIds_succ_of_free hfree]
    rw [hsame] at hlinked
    refine linked_append.mpr ⟨g.ptr k, hlinked, g.idOf_ptr hk, ?_⟩
    show (w.slots k).nextOffset = _
    rw [hself]

/-- The rounds change no status.
Source: `endfields.c`, `ef_rebuild_free_list` -/
lemma Relinked.status {z : ℕ} (h : v.Relinked g k z w) (i : ℕ) :
    (w.slots i).status = (v.slots i).status := by
  rw [h.slots i]
  split_ifs <;> rfl

/-- The free list of `w` holds exactly the `FREE` slots, in order, and the checksums are computed
anew; apart from that `w` is `v`. -/
structure Rebuilt (g : Geometry) (v w : View) : Prop where
  core : w.core = v.core
  seg : w.seg = v.seg
  sb : ∃ c, w.sb = ((v.sb.setFreeListHead w.sb.freeListHead).setFreeCount
    ((v.freeIds g.n).length % u32)).setChecksum c
  free : ∀ i, i < g.n → (v.slots i).status = statusFree →
    w.slots i = { v.slots i with nextOffset := (w.slots i).nextOffset }
  live : ∀ i, i < g.n → (v.slots i).status ≠ statusFree → w.slots i =
    if efSlotStatusHasCrc (v.slots i).status = true then (v.slots i).sealed v.sb.slotCrc i
    else v.slots i
  linked : Linked g.idOf (fun i => (w.slots i).nextOffset) w.sb.freeListHead (v.freeIds g.n) 0

/-- The list does not depend on the head that it starts from. -/
lemma Relinked.of_setSb {z a : ℕ} (h : (v.setSb (v.sb.setFreeListHead a)).Relinked g k z w) :
    v.Relinked g k z w :=
  ⟨h.core, h.seg, h.sb, h.slots, h.linked⟩

/-- The list is made, the free slots are counted, and the checksums are computed. -/
lemma Relinked.rebuilt {w' : View} {count c c' : ℕ} (h : v.Relinked g g.n 0 w)
    (hcount : count = (v.freeIds g.n).length % u32)
    (hw : w' = (if v.sb.slotCrc = true then
      (w.setSb ((w.sb.setFreeCount count).setChecksum c)).reseal g.n
        else w.setSb ((w.sb.setFreeCount count).setChecksum c)).setSb
          (((w.sb.setFreeCount count).setChecksum c).setChecksum c')) : v.Rebuilt g w' := by
  have hcrc : ((w.sb.setFreeCount count).setChecksum c).slotCrc = v.sb.slotCrc := by
    rw [h.sb]
    rfl
  have hsb : w'.sb = ((w.sb.setFreeCount count).setChecksum c).setChecksum c' := by rw [hw, setSb_sb]
  have hslots : ∀ i, i < g.n → w'.slots i =
      if efSlotStatusHasCrc (v.slots i).status = true then (w.slots i).sealed v.sb.slotCrc i
      else w.slots i := by
    intro i hi
    rw [hw, setSb_slots]
    by_cases hon : v.sb.slotCrc = true
    · rw [if_pos hon, reseal_slots, setSb_slots, setSb_sb, hcrc, h.status i]
      by_cases hc : efSlotStatusHasCrc (v.slots i).status = true
      · rw [if_pos hc, if_pos ⟨hi, hc⟩]
      · rw [if_neg hc, if_neg fun h => hc h.2]
    · rw [if_neg hon, setSb_slots]
      unfold Slot.sealed
      rw [if_neg hon, ite_self]
  have hnofree : efSlotStatusHasCrc statusFree = false := by decide
  have hfree : ∀ i, i < g.n → (v.slots i).status = statusFree → w'.slots i = w.slots i := by
    intro i hi hst
    rw [hslots i hi, hst, hnofree, if_neg Bool.false_ne_true]
  refine ⟨?_, ?_, ⟨c', ?_⟩, fun i hi hst => ?_, fun i hi hst => ?_, ?_⟩
  · rw [hw, setSb_core, ← h.core]
    split_ifs <;> rfl
  · rw [hw, setSb_seg, ← h.seg]
    split_ifs <;> rfl
  · rw [hsb, h.sb, hcount]
    rfl
  · have hi' := h.slots i
    rw [if_pos ⟨hi, hst⟩] at hi'
    rw [hfree i hi hst]
    exact hi'
  · have hi' := h.slots i
    rw [if_neg fun hc => hst hc.2] at hi'
    rw [hslots i hi, hi']
  · have hhead : w'.sb.freeListHead = w.sb.freeListHead := by
      rw [hsb]
      rfl
    rw [hhead]
    refine h.linked.mono fun o j hj hres => ⟨hres, ?_⟩
    obtain ⟨hjn, hst⟩ := mem_freeIds.mp hj
    rw [hfree j hjn hst]

/-- The rebuild changes no status.
Source: `endfields.c`, `ef_rebuild_free_list` -/
lemma Rebuilt.status (h : v.Rebuilt g w) (hi : i < g.n) : (w.slots i).status = (v.slots i).status := by
  by_cases hst : (v.slots i).status = statusFree
  · rw [h.free i hi hst]
  · rw [h.live i hi hst]
    split_ifs
    · exact Slot.sealed_status ..
    · rfl

/-- A slot that is not free keeps all but its checksum. -/
lemma Rebuilt.kept (h : v.Rebuilt g w) (hi : i < g.n) (hst : (v.slots i).status ≠ statusFree) :
    (w.slots i).payload = (v.slots i).payload ∧ (w.slots i).nextOffset = (v.slots i).nextOffset := by
  rw [h.live i hi hst]
  split_ifs
  · exact ⟨Slot.sealed_payload .., Slot.sealed_nextOffset ..⟩
  · exact ⟨rfl, rfl⟩

/-- The listed slots are the free ones. -/
lemma Rebuilt.mem_iff (h : v.Rebuilt g w) (i : ℕ) :
    i ∈ v.freeIds g.n ↔ i < g.n ∧ (w.slots i).status = statusFree := by
  rw [mem_freeIds]
  constructor
  · exact fun ⟨hi, hst⟩ => ⟨hi, (h.status hi).trans hst⟩
  · exact fun ⟨hi, hst⟩ => ⟨hi, (h.status hi).symm.trans hst⟩

end View

namespace Db

variable {g : Geometry} {db : Db} {i k : ℕ}

/-- One round of the loop. -/
lemma view_rebuildFreeSlot (h : (db.view g).Bound g) (hi : i < g.n) (count : ℕ) :
    (db.rebuildFreeSlot i count).1.view g =
        (if ((db.view g).slots i).status = statusFree then
          ((db.view g).setSlot i { (db.view g).slots i with
            nextOffset := (db.view g).sb.freeListHead }).setSb
              ((db.view g).sb.setFreeListHead (g.ptr i))
        else db.view g) ∧
      (db.rebuildFreeSlot i count).2 =
        count + if ((db.view g).slots i).status = statusFree then 1 else 0 := by
  have hhead : db.sb.freeListHead < u64 := db.freeListHead_lt g
  unfold rebuildFreeSlot
  rw [slot_eq h.cap hi]
  by_cases hfree : ((db.view g).slots i).status = statusFree
  · rw [if_pos hfree, if_pos hfree, if_pos hfree]
    have hview : (db.setNext (db.slotPtr i) db.sb.freeListHead).view g = (db.view g).setSlot i
        { (db.view g).slots i with nextOffset := (db.view g).sb.freeListHead } := by
      rw [slotPtr_eq h.cap, view_setNext hi, Nat.mod_eq_of_lt hhead]
      rfl
    have hb : ((db.setNext (db.slotPtr i) db.sb.freeListHead).view g).Bound g := by
      rw [hview]
      exact h.congr rfl rfl rfl rfl
    refine ⟨?_, rfl⟩
    simp only
    rw [view_setFreeListHead, efSlotToOffset_of_lt hb hi, hview,
      Nat.mod_eq_of_lt (g.ptr_lt_u64 hi)]
    rfl
  · rw [if_neg hfree, if_neg hfree, if_neg hfree]
    exact ⟨rfl, rfl⟩

/-- **The loop** links the free slots, from the last one down. -/
lemma rebuildFreeListLoop_relinked (h : (db.view g).Bound g) (hk : k ≤ g.n) (count : ℕ) :
    (db.rebuildFreeListLoop count k).2 = count + ((db.view g).freeIds k).length ∧
      (db.view g).Relinked g k db.sb.freeListHead ((db.rebuildFreeListLoop count k).1.view g) := by
  induction k generalizing db count with
  | zero => exact ⟨rfl, View.Relinked.zero g _⟩
  | succ k ih =>
      obtain ⟨hview, hcount⟩ := view_rebuildFreeSlot h (show k < g.n by omega) count
      unfold rebuildFreeListLoop
      simp only
      generalize db.rebuildFreeSlot k count = r at hview hcount ⊢
      obtain ⟨db₁, count₁⟩ := r
      simp only at hview hcount ⊢
      have hb₁ : (db₁.view g).Bound g := by
        rw [hview]
        split_ifs
        · exact h.congr rfl rfl rfl rfl
        · exact h
      obtain ⟨hlen, hrel⟩ := ih hb₁ (by omega) count₁
      have hhead : db₁.sb.freeListHead = (db₁.view g).sb.freeListHead := rfl
      rw [hhead] at hrel
      by_cases hfree : ((db.view g).slots k).status = statusFree
      · rw [if_pos hfree] at hview hcount
        rw [hview] at hrel hlen
        refine ⟨?_, hrel.succ_of_free (by omega) hfree⟩
        have hsame : (((db.view g).setSlot k { (db.view g).slots k with
            nextOffset := (db.view g).sb.freeListHead }).setSb
              ((db.view g).sb.setFreeListHead (g.ptr k))).freeIds k = (db.view g).freeIds k :=
          View.freeIds_congr fun i hi => by
            rw [View.setSb_slots, View.setSlot_slots, Function.update_of_ne (by omega)]
        rw [hlen, hcount, hsame, View.freeIds_succ_of_free hfree, List.length_append,
          List.length_singleton]
        omega
      · rw [if_neg hfree] at hview hcount
        rw [hview] at hrel hlen
        refine ⟨?_, hrel.succ_of_ne hfree⟩
        rw [hlen, hcount, View.freeIds_succ_of_ne hfree]
        rfl

/-- The superblock of an image with a schema is given the count of the free slots. -/
lemma view_efUpgradeSuperblock (hs : db.sb.schemaVersion ≠ 0) (count : ℕ) :
    ∃ c, (db.efUpgradeSuperblock count).view g =
      (db.view g).setSb (((db.view g).sb.setFreeCount (count % u32)).setChecksum c) := by
  unfold efUpgradeSuperblock
  simp only
  rw [if_neg hs]
  obtain ⟨v, hv⟩ := efSbChecksumStore_eq (db.setFreeCount count)
  rw [hv, view_setChecksum, view_setFreeCount]
  exact ⟨_, rfl⟩

/-- The checksums of the slots with one are computed anew. -/
lemma view_efDbRefreshChecksums (h : (db.view g).Bound g) :
    ∃ c, (db.efDbRefreshChecksums).view g =
      ((if (db.view g).sb.slotCrc = true then (db.view g).reseal g.n else db.view g)).setSb
        ((db.view g).sb.setChecksum c) := by
  have hview := view_efDbRefreshSlotCrcs h
  unfold efDbRefreshChecksums
  obtain ⟨v, hv⟩ := efSbChecksumStore_eq db.efDbRefreshSlotCrcs
  rw [hv, view_setChecksum, hview]
  refine ⟨v % u32, ?_⟩
  split_ifs <;> rfl

/-- **The rebuilt free list** of an image with a schema. -/
lemma efRebuildFreeList_spec (h : (db.view g).Bound g) (hs : db.sb.schemaVersion ≠ 0) :
    (db.view g).Rebuilt g (db.efRebuildFreeList.view g) := by
  have hmax : db.sb.maxSlots = g.n := h.maxSlots
  have hn : db.rebuildRounds = g.n := by
    have hfits := g.fits
    unfold u64 at hfits
    unfold rebuildRounds objectMax
    rw [hmax, if_pos (by omega)]
  have hview₀ : (db.setFreeListHead 0).view g =
      (db.view g).setSb ((db.view g).sb.setFreeListHead 0) := view_setFreeListHead
  have h₀ : ((db.setFreeListHead 0).view g).Bound g := by
    rw [hview₀]
    exact h.congr rfl rfl rfl rfl
  have hhead₀ : (db.setFreeListHead 0).sb.freeListHead = 0 := by
    rw [sb_eq g, hview₀]
    rfl
  obtain ⟨hlen, hrel⟩ := rebuildFreeListLoop_relinked h₀ le_rfl 0
  unfold efRebuildFreeList
  rw [hn]
  simp only
  rw [hhead₀, hview₀] at hrel
  rw [hview₀] at hlen
  generalize (db.setFreeListHead 0).rebuildFreeListLoop 0 g.n = r at hlen hrel ⊢
  obtain ⟨db₁, count⟩ := r
  simp only at hlen hrel ⊢
  have hids : ((db.view g).setSb ((db.view g).sb.setFreeListHead 0)).freeIds g.n =
      (db.view g).freeIds g.n := rfl
  rw [hids, Nat.zero_add] at hlen
  have hrel := hrel.of_setSb
  have hs₁ : db₁.sb.schemaVersion ≠ 0 := by
    rw [sb_eq g db₁, hrel.sb]
    exact hs
  have hb₁ : (db₁.view g).Bound g := by
    refine h.congr ?_ ?_ ?_ ?_
    · rw [hrel.core]
    · rw [hrel.core]
    · rw [hrel.core]
    · rw [hrel.sb]
      rfl
  obtain ⟨c, hup⟩ := view_efUpgradeSuperblock (g := g) hs₁ count
  have hmod : count % u32 = ((db.view g).freeIds g.n).length % u32 := by rw [hlen]
  generalize count % u32 = m at hup hmod
  generalize db₁.efUpgradeSuperblock count = db₂ at hup ⊢
  have hb₂ : (db₂.view g).Bound g := by
    rw [hup]
    exact hb₁.congr rfl rfl rfl rfl
  obtain ⟨c', hfin⟩ := view_efDbRefreshChecksums hb₂
  have hcrc : (db₂.view g).sb.slotCrc = (db.view g).sb.slotCrc := by
    rw [hup, View.setSb_sb, hrel.sb]
    rfl
  rw [hcrc, hup] at hfin
  exact hrel.rebuilt hmod hfin

end Db

end Endfields.Model
