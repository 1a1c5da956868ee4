import Endfields.Spec.Open
import Endfields.Pool.Queue

/-!
# The pool of a new database

A database without a hash index that was just opened has all its slots on the free list, in order,
and no queue.

* **Building** (`efBuildFreeList_pool`): the list that `ef_build_free_list` makes.
* **Opening** (`Built.pool`): a handle on a new database has a pool.
-/

namespace Endfields.Model

open Endfields.Lib

namespace Db

variable {g : Geometry} {db : Db} {i n maxSlots : ℕ} {env : Env}

/-- The slots from `k` on lead to each other in order. -/
lemma linked_range' {next : ℕ → ℕ} (hnext : ∀ i, i < g.n →
    next i = if i + 1 < g.n then g.ptr (i + 1) else 0) {k m : ℕ} (hk : k + (m + 1) = g.n) :
    Linked g.idOf next (g.ptr k) (List.range' k (m + 1)) 0 := by
  induction m generalizing k with
  | zero =>
      refine ⟨g.idOf_ptr (by omega), ?_⟩
      show next k = 0
      rw [hnext k (by omega), if_neg (by omega)]
  | succ m ih =>
      refine ⟨g.idOf_ptr (by omega), ?_⟩
      rw [hnext k (by omega), if_pos (by omega)]
      exact ih (by omega)

/-- One slot built: free, with the link to the next one. -/
lemma view_buildFreeSlot (h : (db.view g).Bound g) (hi : i < g.n) :
    ∃ s : Slot, (db.buildFreeSlot i).view g = (db.view g).setSlot i s ∧ s.status = statusFree ∧
      s.nextOffset = if i + 1 < g.n then g.ptr (i + 1) else 0 := by
  have hmax : ((db.setStatus (g.ptr i) statusFree).zero (g.ptr i + 8) 48).sb.maxSlots = g.n := by
    rw [sb_eq g, view_zero_payload hi, view_setStatus hi]
    exact h.maxSlots
  have hbound : ((((db.setStatus (g.ptr i) statusFree).zero (g.ptr i + 8) 48)).view g).Bound g := by
    rw [view_zero_payload hi, view_setStatus hi]
    exact h.congr rfl rfl rfl rfl
  have hnext : (if i + 1 < ((db.setStatus (g.ptr i) statusFree).zero (g.ptr i + 8) 48).sb.maxSlots
      then ((db.setStatus (g.ptr i) statusFree).zero (g.ptr i + 8) 48).efSlotToOffset (i + 1)
      else 0) = if i + 1 < g.n then g.ptr (i + 1) else 0 := by
    rw [hmax]
    split_ifs with hc
    · exact efSlotToOffset_of_lt hbound hc
    · rfl
  have hlt : (if i + 1 < g.n then g.ptr (i + 1) else 0) < u64 := by
    split_ifs with hc
    · exact g.ptr_lt_u64 hc
    · norm_num [u64]
  unfold buildFreeSlot
  rw [slotPtr_eq h.cap]
  simp only
  rw [hnext, view_setNext hi, view_zero_payload hi, view_setStatus hi, View.setSlot_setSlot,
    View.setSlot_setSlot]
  exact ⟨_, rfl, by simp, Nat.mod_eq_of_lt hlt⟩

/-- The first `n` slots built. -/
lemma view_buildFreeListLoop (h : (db.view g).Bound g) (hn : n ≤ g.n) :
    ∃ slots : ℕ → Slot, (db.buildFreeListLoop n).view g = { db.view g with slots := slots } ∧
      ∀ i, i < n → (slots i).status = statusFree ∧
        (slots i).nextOffset = if i + 1 < g.n then g.ptr (i + 1) else 0 := by
  induction n with
  | zero => exact ⟨_, rfl, fun i hi => absurd hi (by omega)⟩
  | succ n ih =>
      obtain ⟨slots, hview, hslots⟩ := ih (by omega)
      have hbound : ((db.buildFreeListLoop n).view g).Bound g := by
        rw [hview]
        exact h.congr rfl rfl rfl rfl
      obtain ⟨s, hview', hst, hnext⟩ := view_buildFreeSlot hbound (show n < g.n by omega)
      refine ⟨Function.update slots n s, ?_, fun i hi => ?_⟩
      · show ((db.buildFreeListLoop n).buildFreeSlot n).view g = _
        rw [hview', hview]
        rfl
      · by_cases hin : i = n
        · subst hin
          rw [Function.update_self]
          exact ⟨hst, hnext⟩
        · rw [Function.update_of_ne hin]
          exact hslots i (by omega)

/-- A free slot has no checksum, so computing the checksums again leaves it alone. -/
lemma reseal_of_free {v : View} (hfree : ∀ i, i < g.n → (v.slots i).status = statusFree) :
    (v.reseal g.n) = v := by
  have hslots : (v.reseal g.n).slots = v.slots := by
    funext i
    rw [View.reseal_slots, if_neg]
    rintro ⟨hi, hcrc⟩
    rw [hfree i hi] at hcrc
    simp [efSlotStatusHasCrc] at hcrc
  obtain ⟨core, sb, slots, seg⟩ := v
  unfold View.reseal at hslots ⊢
  simp only at hslots ⊢
  rw [hslots]

/-- **All slots on the free list, in order.** -/
lemma efBuildFreeList_pool (h : Blank g db) (hcap : g.cap = 0) (hquiet : db.env.contention = []) :
    ((db.efBuildFreeList).view g).Pool g (List.range g.n) [] := by
  have hsb := h.sb
  have hb : (db.view g).Bound g := h.ok.toBound
  have hmax : db.sb.maxSlots = g.n := hsb.maxSlots
  have hcalm : (db.view g).Calm g := ⟨hb, h.mapped, hsb.schema, hcap, hsb.hashCap.trans hcap,
      h.ok.undoSlots,
    h.idle, hquiet, hsb.queueLock, hsb.indexWriteLock⟩
  have hhead : (db.view g).sb.queueHead = 0 := hsb.queueHead
  have hn64 : g.n < u64 := by
    have hfits := g.fits
    omega
  unfold efBuildFreeList efDbRefreshChecksums
  simp only
  by_cases h0 : db.sb.maxSlots = 0
  · rw [if_pos h0, view_setFreeCount, view_setFreeListHead]
    have hn : g.n = 0 := by omega
    rw [hn]
    refine ⟨hcalm.congr ⟨rfl, rfl, rfl, rfl, rfl, rfl⟩, rfl, List.nodup_range, fun i => ?_,
      fun _ => rfl, .inl ⟨hhead, rfl⟩⟩
    simp [hn]
  rw [if_neg h0, hmax]
  have hview₁ : (db.setFreeListHead 0).view g = (db.view g).setSb
      ((db.view g).sb.setFreeListHead 0) := by
    rw [view_setFreeListHead]
    rfl
  have hb₁ : ((db.setFreeListHead 0).view g).Bound g := by
    rw [hview₁]
    exact hb.congr rfl rfl rfl rfl
  obtain ⟨slots, hview₂, hslots⟩ := view_buildFreeListLoop hb₁ le_rfl
  generalize (db.setFreeListHead 0).buildFreeListLoop g.n = db₂ at hview₂ ⊢
  have hb₂ : (db₂.view g).Bound g := by
    rw [hview₂]
    exact hb₁.congr rfl rfl rfl rfl
  have hoff : db₂.efSlotToOffset 0 = g.ptr 0 := efSlotToOffset_of_lt hb₂ (by omega)
  -- the two words of the superblock, and the checksums
  have hview₃ : ((db₂.setFreeListHead (db₂.efSlotToOffset 0)).setFreeCount g.n).view g =
      { (db.view g).setSb (((db.view g).sb.setFreeListHead (g.ptr 0)).setFreeCount (g.n % u32)) with
        slots := slots } := by
    rw [view_setFreeCount, view_setFreeListHead, hoff, hview₂, hview₁,
      Nat.mod_eq_of_lt (g.ptr_lt_u64 (show 0 < g.n by omega))]
    rfl
  generalize (db₂.setFreeListHead (db₂.efSlotToOffset 0)).setFreeCount g.n = db₃ at hview₃ ⊢
  have hb₃ : (db₃.view g).Bound g := by
    rw [hview₃]
    exact hb.congr rfl rfl rfl rfl
  have hview₄ : db₃.efDbRefreshSlotCrcs.view g = db₃.view g := by
    rw [view_efDbRefreshSlotCrcs hb₃]
    split_ifs with hcrc
    · refine reseal_of_free fun i hi => ?_
      rw [hview₃]
      exact (hslots i hi).1
    · rfl
  obtain ⟨c, hc⟩ := efSbChecksumStore_eq db₃.efDbRefreshSlotCrcs
  rw [hc, view_setChecksum, hview₄, hview₃]
  obtain ⟨m, hm⟩ : ∃ m, g.n = m + 1 := ⟨g.n - 1, by omega⟩
  refine ⟨hcalm.congr ⟨rfl, rfl, rfl, rfl, rfl, rfl⟩, ?_, List.nodup_range, fun i => ?_,
    fun hn => ?_, .inl ⟨hhead, rfl⟩⟩
  · rw [List.range_eq_range', hm]
    exact linked_range' (fun i hi => (hslots i hi).2) (by omega)
  · rw [List.mem_range]
    exact ⟨fun hi => ⟨hi, (hslots i hi).1⟩, fun hi => hi.1⟩
  · rw [List.length_range]
    exact Nat.mod_eq_of_lt hn

/-- **A new database without a hash index**, as it was opened. -/
lemma Built.pool (h : Built maxSlots 0 env db) (hquiet : env.contention = []) :
    ∃ g : Geometry, g.n = maxSlots ∧ (db.view g).Pool g (List.range g.n) [] := by
  obtain ⟨g, db₀, hn, hcap, hblank, henv, rfl⟩ := h
  have hpool := efBuildFreeList_pool hblank hcap (henv.trans hquiet)
  generalize db₀.efBuildFreeList = db₁ at hpool ⊢
  exact ⟨g, hn, hpool⟩

end Db

end Endfields.Model
