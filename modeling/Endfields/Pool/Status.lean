import Endfields.Pool.Runs
import Endfields.Pool.Release

/-!
# Status changes and the allocator

`ef_set_status` on a database without a hash index.

* `View.Allocator g v l`: the free list is `l`, and the free count is its length as far as the
  counter reaches.
* `Db.efFreeSlot_count`: a release keeps it, whatever the lock attempts of the call come to, and the
  list grows by `Db.releaseCount`.
* **`Db.efSetStatus_sound_iff`**: the allocator is sound after a status change exactly if a `FREE`
  slot is not given a status other than `FREE` and `USED`, and, for a release, the counter can hold
  the `FREE` slots and those that are given back.
-/

namespace Endfields.Model

open Endfields.Lib

namespace View

variable {g : Geometry} {v w : View} {l l₁ l₂ : List ℕ} {i d : ℕ} {s : Slot}

/-! ### The free list without its end -/

/-- The free list depends on the slots and the superblock's head. -/
lemma FreeListIs.still (h : v.FreeListIs g l) (hst : Still v w) : w.FreeListIs g l :=
  h.congr (by rw [hst.sb]) (fun i _ => by rw [hst.slots]) (fun i _ _ => by rw [hst.slots]) h.lt

/-- Writing a slot that is not free and stays so. -/
lemma FreeListIs.setSlot (h : v.FreeListIs g l) (hi : i < g.n) (hst : (v.slots i).status ≠ statusFree)
    (hs : s.status ≠ statusFree) : (v.setSlot i s).FreeListIs g l where
  chain := h.chain.congr fun j hj => by
    have hji : j ≠ i := fun heq => hst ((h.mem_iff i hi).mp (heq ▸ hj))
    rw [setSlot_slots, Function.update_of_ne hji]
  nodup := h.nodup
  mem_iff j hj := by
    rw [h.mem_iff j hj, setSlot_slots, Function.update_apply]
    split_ifs with hji
    · rw [hji]
      exact iff_of_false hst hs
    · rfl

/-- Giving a slot back. -/
lemma FreeListIs.pushSlot (h : v.FreeListIs g l) (hi : i < g.n)
    (hst : (v.slots i).status ≠ statusFree) : (v.pushSlot g i).FreeListIs g (i :: l) := by
  have hil : i ∉ l := fun hm => hst ((h.mem_iff i hi).mp hm)
  refine ⟨⟨g.idOf_ptr hi, ?_⟩, List.nodup_cons.mpr ⟨hil, h.nodup⟩, fun j hj => ?_⟩
  · show Chain _ _ ((v.pushSlot g i).slots i).nextOffset l
    rw [pushSlot_slots_self]
    refine h.chain.congr fun j hj => ?_
    have hji : j ≠ i := fun heq => hil (heq ▸ hj)
    rw [pushSlot_slots_of_ne hji]
  · by_cases hji : j = i
    · subst hji
      rw [pushSlot_slots_self]
      simp [released]
    · rw [pushSlot_slots_of_ne hji, ← h.mem_iff j hj]
      simp [hji]

/-- Claiming a slot in the middle of the list. -/
lemma FreeListIs.claimAt (h : v.FreeListIs g (l₁ ++ d :: i :: l₂)) :
    (v.claimAt d i).FreeListIs g (l₁ ++ d :: l₂) := by
  obtain ⟨z, hl, hz⟩ := h.chain.linked
  have hperm : (l₁ ++ d :: i :: l₂).Perm (i :: (l₁ ++ d :: l₂)) := by
    rw [List.append_cons, List.append_cons l₁ d l₂]
    exact List.perm_middle
  obtain ⟨hni, hnd⟩ := List.nodup_cons.mp (hperm.nodup_iff.mp h.nodup)
  have hdi : d ≠ i := by
    rintro rfl
    exact hni (by simp)
  refine ⟨(claimAt_linked hl h.nodup).chain hz, hnd, fun j hj => ?_⟩
  rw [claimAt_status hdi]
  split_ifs with hji
  · rw [hji]
    exact iff_of_false hni (by simp)
  · rw [← h.mem_iff j hj, hperm.mem_iff, List.mem_cons]
    simp [hji]

/-- No more slots are listed than there are. -/
lemma FreeListIs.length_le (h : v.FreeListIs g l) : l.length ≤ g.n := by
  have hsub := h.nodup.subperm fun i hi => List.mem_range.mpr (h.lt i hi)
  simpa using hsub.length_le

/-- A handle without an index, outside transactions, whose free list is `l`; the free count is its
length, as far as the counter reaches. -/
structure Allocator (g : Geometry) (v : View) (l : List ℕ) : Prop extends View.Bound g v,
    View.FreeListIs g v l where
  noIndex : g.cap = 0
  idle : v.core.txnActive = false
  count : v.sb.freeCount = l.length % u32

/-- The allocator's state depends on the slots and the superblock alone. -/
lemma Allocator.still (h : v.Allocator g l) (hst : Still v w) : w.Allocator g l where
  toBound := hst.bound h.toBound
  toFreeListIs := h.toFreeListIs.still hst
  noIndex := h.noIndex
  idle := (congrArg Core.txnActive hst.core).trans h.idle
  count := by
    rw [hst.sb]
    exact h.count

/-- A slot that is not FREE and stays so is no part of the allocator's state. -/
lemma Allocator.setSlot (h : v.Allocator g l) (hi : i < g.n) (hst : (v.slots i).status ≠ statusFree)
    (hs : s.status ≠ statusFree) : (v.setSlot i s).Allocator g l where
  toBound := bound_setSlot.mpr h.toBound
  toFreeListIs := h.toFreeListIs.setSlot hi hst hs
  noIndex := h.noIndex
  idle := h.idle
  count := h.count

/-- A released slot is the new head of the list.
Source: `endfields.c`, `ef_free_list_push_atomic` -/
lemma Allocator.pushSlot (h : v.Allocator g l) (hi : i < g.n)
    (hst : (v.slots i).status ≠ statusFree) : (v.pushSlot g i).Allocator g (i :: l) where
  toBound := bound_pushSlot.mpr h.toBound
  toFreeListIs := h.toFreeListIs.pushSlot hi hst
  noIndex := h.noIndex
  idle := h.idle
  count := by
    show (v.sb.freeCount + 1) % u32 = (l.length + 1) % u32
    rw [h.count, Nat.mod_add_mod]

end View

namespace Db

variable {g : Geometry} {db : Db} {i st off : ℕ} {l l₀ : List ℕ}

/-! ### Releases -/

/-- The chain slot whose turn it is, when the attempt at the lock fails. -/
lemma releaseStep_stops {a : ℕ} (h : (db.view g).Allocator g l₀) (ha : a < g.n)
    (hst : ((db.view g).slots a).status = statusOverflow)
    (hne : ((db.setNext (g.ptr a) 0).efReturnSlotToPool a (g.ptr a)).1 ≠ .ok) :
    let db' := ((db.setNext (g.ptr a) 0).efReturnSlotToPool a (g.ptr a)).2
    (db'.view g).Allocator g l₀ ∧ (∀ n, db.granted n = 0) ∧
      ∀ j, ((db.view g).slots j).status ≠ statusOverflow → (db'.view g).slots j =
          (db.view g).slots j := by
  have hfree : ((db.view g).slots a).status ≠ statusFree := by
    rw [hst]
    simp
  have hview₁ := @view_setNext g db a 0 ha
  have hlocks := SameTable.setNext h.toBound ha
  have hlocked : (db.setNext (g.ptr a) 0).sb.indexWriteLock = db.sb.indexWriteLock :=
    congrArg (fun v => v.sb.indexWriteLock) hview₁
  generalize db.setNext (g.ptr a) 0 = db₁ at hne hview₁ hlocks hlocked ⊢
  have halloc₁ : (db₁.view g).Allocator g l₀ := by
    rw [hview₁]
    exact h.setSlot ha hfree hfree
  have hfirst := fun h0 => hne ((efReturnSlotToPool_ok_iff_grants halloc₁.writable a _).mpr h0)
  have hret := (efReturnSlotToPool_cases halloc₁.toBound halloc₁.noIndex ha).resolve_right
    fun h0 => hne h0.1
  generalize (db₁.efReturnSlotToPool a (g.ptr a)).2 = db₂ at hret
  have hstill : View.Still (db₁.view g) (db₂.view g) := hret.2
  refine ⟨halloc₁.still hstill, fun n => ?_, fun j hj => ?_⟩
  · rw [← granted_congr hlocks.schema hlocked hlocks.env, granted_of_not hfirst]
  · have hja : j ≠ a := by
      rintro rfl
      exact hj hst
    rw [hstill.slots, hview₁, View.setSlot_slots, Function.update_of_ne hja]

/-- **One slot of a chain given back**, with the chain that is left. -/
lemma releaseStep_count {a z : ℕ} (h : (db.view g).Allocator g l₀)
    (hc : (db.view g).Chained g off (a :: l) z)
    (hok : ((db.setNext (g.ptr a) 0).efReturnSlotToPool a (g.ptr a)).1 = .ok) :
    let db' := ((db.setNext (g.ptr a) 0).efReturnSlotToPool a (g.ptr a)).2
    (db'.view g).Allocator g (a :: l₀) ∧ (db'.view g).Chained g ((db.view g).slots a).nextOffset l z ∧
      (∀ n, db.granted (n + 1) = db'.granted n + 1) ∧
      ∀ j, ((db.view g).slots j).status ≠ statusOverflow → (db'.view g).slots j =
          (db.view g).slots j := by
  obtain ⟨ha, hst⟩ := (View.overflowAt_eq_some_iff.mp hc.path.1).imp_right And.right
  have hfree : ((db.view g).slots a).status ≠ statusFree := by
    rw [hst]
    simp
  have hview₁ := @view_setNext g db a 0 ha
  have hlocks := SameTable.setNext h.toBound ha
  have hlocked : (db.setNext (g.ptr a) 0).sb.indexWriteLock = db.sb.indexWriteLock :=
    congrArg (fun v => v.sb.indexWriteLock) hview₁
  generalize db.setNext (g.ptr a) 0 = db₁ at hok hview₁ hlocks hlocked ⊢
  have halloc₁ : (db₁.view g).Allocator g l₀ := by
    rw [hview₁]
    exact h.setSlot ha hfree hfree
  have hslot₁ : ∀ j, j ≠ a → (db₁.view g).slots j = (db.view g).slots j := by
    intro j hja
    rw [hview₁, View.setSlot_slots, Function.update_of_ne hja]
  have hstat₁ : ((db₁.view g).slots a).status ≠ statusFree := by
    rw [hview₁, View.setSlot_slots, Function.update_self]
    exact hfree
  have hgrants := lockGrants_efReturnSlotToPool halloc₁.toBound halloc₁.noIndex ha hok
  have hfirst := (efReturnSlotToPool_ok_iff_grants halloc₁.writable a _).mp hok
  have hret := (efReturnSlotToPool_cases halloc₁.toBound halloc₁.noIndex ha).resolve_left
    fun h0 => h0.1 hok
  generalize (db₁.efReturnSlotToPool a (g.ptr a)).2 = db₂ at hgrants hret
  have hstill : View.Still ((db₁.view g).pushSlot g a) (db₂.view g) := hret.2
  have hslot₂ : ∀ j, j ≠ a → (db₂.view g).slots j = (db.view g).slots j := by
    intro j hja
    rw [hstill.slots, View.pushSlot_slots_of_ne hja, hslot₁ j hja]
  have hover : ∀ o j, (db₂.view g).overflowAt g o = some j ↔
      (db.view g).overflowAt g o = some j ∧ j ≠ a := by
    intro o j
    rw [View.overflowAt_eq_some_iff, View.overflowAt_eq_some_iff]
    by_cases hja : j = a
    · subst hja
      rw [hstill.slots, View.pushSlot_slots_self]
      simp [View.released]
    · rw [hslot₂ j hja]
      simp [hja]
  have haj := List.nodup_cons.mp hc.nodup
  refine ⟨(halloc₁.pushSlot ha hstat₁).still hstill, ⟨haj.2, ?_, ?_⟩, fun n => ?_, fun j hj => ?_⟩
  · refine Linked.mono hc.path.2 fun o j hmem hj => ?_
    have hja : j ≠ a := fun heq => haj.1 (heq ▸ hmem)
    exact ⟨(hover o j).mpr ⟨hj, hja⟩, by rw [hslot₂ j hja]⟩
  · intro j hj
    obtain ⟨hj, hja⟩ := (hover z j).mp hj
    exact (List.mem_cons.mp (hc.last j hj)).resolve_left hja
  · rw [← granted_congr hlocks.schema hlocked hlocks.env (n + 1), granted_succ hfirst hgrants]
  · exact hslot₂ j fun heq => hj (heq ▸ hst)

/-- **The release of a chain**, to its end or to the first attempt at the lock that fails. -/
lemma releaseChainLoop_count {z : ℕ} (fuel : ℕ) (h : (db.view g).Allocator g l₀)
    (hc : (db.view g).Chained g off l z) (hfuel : l.length < fuel) :
    ∃ l', ((releaseChainLoop fuel off db).2.view g).Allocator g l' ∧
      (∀ j, ((db.view g).slots j).status ≠ statusOverflow →
        ((releaseChainLoop fuel off db).2.view g).slots j = (db.view g).slots j) ∧
      ((releaseChainLoop fuel off db).1 = .ok → z = 0 ∧ l'.length = l₀.length + l.length ∧
        ∀ m, db.granted (l.length + m) = l.length + (releaseChainLoop fuel off db).2.granted m) ∧
      ((releaseChainLoop fuel off db).1 ≠ .ok → l'.length = l₀.length + db.granted l.length ∧
        (z = 0 → ∀ m, db.granted (l.length + m) = db.granted l.length)) := by
  induction l generalizing fuel off db l₀ with
  | nil =>
      obtain ⟨fuel, rfl⟩ := Nat.exists_eq_succ_of_ne_zero (Nat.ne_of_gt hfuel)
      have hend : off = z := hc.path
      subst hend
      rw [releaseChainLoop]
      by_cases h0 : off = 0
      · rw [if_pos h0]
        exact ⟨l₀, h, fun _ _ => rfl, fun _ => ⟨h0, rfl, fun m => by simp⟩, fun hne => absurd rfl hne⟩
      rw [if_neg h0]
      -- the chain ends in no overflow slot
      rcases hid : db.efOffsetToSlotId off with e | j
      · have he : e ≠ .ok := by
          rintro rfl
          exact efOffsetToSlotId_ne_error_ok hid
        exact ⟨l₀, h, fun _ _ => rfl, fun hok => absurd hok he, fun _ => ⟨rfl, fun hz => absurd hz h0⟩⟩
      · obtain ⟨hj, hptr⟩ := (efOffsetToSlotId_eq_ok_iff h.toBound _ _).mp hid
        have hst : ((db.view g).slots j).status ≠ statusOverflow := fun hst =>
          List.not_mem_nil (hc.last j (View.overflowAt_eq_some_iff.mpr ⟨hj, hptr, hst⟩))
        simp only [slotPtr_eq h.cap, slotAt_eq db hj]
        rw [if_pos hst]
        exact ⟨l₀, h, fun _ _ => rfl, fun hok => absurd hok (by simp), fun _ =>
          ⟨rfl, fun hz => absurd hz h0⟩⟩
  | cons a l ih =>
      obtain ⟨fuel, rfl⟩ := Nat.exists_eq_succ_of_ne_zero (Nat.ne_of_gt (Nat.zero_lt_of_lt hfuel))
      obtain ⟨ha, hptr, hst⟩ := View.overflowAt_eq_some_iff.mp hc.path.1
      have hid : db.efOffsetToSlotId off = .ok a :=
        (efOffsetToSlotId_eq_ok_iff h.toBound _ _).mpr ⟨ha, hptr⟩
      rw [releaseChainLoop, if_neg (hptr ▸ g.ptr_ne_zero a), hid]
      simp only [slotPtr_eq h.cap, slotAt_eq db ha]
      rw [if_neg (not_not.mpr hst)]
      have hstep := releaseStep_count h hc
      have hstop := releaseStep_stops h ha hst
      generalize (db.setNext (g.ptr a) 0).efReturnSlotToPool a (g.ptr a) = r at hstep hstop ⊢
      obtain ⟨e, db₂⟩ := r
      by_cases hok : e = .ok
      swap
      · obtain ⟨halloc, hnone, hkept⟩ := hstop hok
        have hres : ∃ l', (db₂.view g).Allocator g l' ∧
            (∀ j, ((db.view g).slots j).status ≠ statusOverflow →
              (db₂.view g).slots j = (db.view g).slots j) ∧
            (e = .ok → z = 0 ∧ l'.length = l₀.length + (a :: l).length ∧
              ∀ m, db.granted ((a :: l).length + m) = (a :: l).length + db₂.granted m) ∧
            (e ≠ .ok → l'.length = l₀.length + db.granted (a :: l).length ∧
              (z = 0 → ∀ m, db.granted ((a :: l).length + m) = db.granted (a :: l).length)) :=
          ⟨l₀, halloc, hkept, fun h0 => absurd h0 hok, fun _ =>
            ⟨by rw [hnone, Nat.add_zero], fun _ m => (hnone _).trans (hnone _).symm⟩⟩
        cases e <;> first | exact absurd rfl hok | exact hres
      subst hok
      obtain ⟨halloc, hchained, hgranted, hkept⟩ := hstep rfl
      obtain ⟨l', halloc', hkept', hdone, hfailed⟩ :=
        ih fuel halloc hchained (Nat.lt_of_succ_lt_succ hfuel)
      have hlen : ∀ m, (a :: l).length + m = l.length + m + 1 := by
        intro m
        rw [List.length_cons]
        omega
      refine ⟨l', halloc', fun j hj => ?_, fun hok => ?_, fun hne => ?_⟩
      · have hslot := hkept j hj
        rw [← hslot]
        exact hkept' j (by rw [hslot]; exact hj)
      · obtain ⟨hz, hl', hmore⟩ := hdone hok
        refine ⟨hz, ?_, fun m => ?_⟩
        · rw [hl', List.length_cons, List.length_cons]
          exact Nat.succ_add_eq_add_succ _ _
        · rw [hlen, hgranted, hmore, List.length_cons]
          exact Nat.add_right_comm _ _ _
      · obtain ⟨hl', hmore⟩ := hfailed hne
        refine ⟨?_, fun hz m => ?_⟩
        · rw [hl', List.length_cons, List.length_cons, hgranted]
          exact Nat.succ_add_eq_add_succ _ _
        · rw [hlen, List.length_cons, hgranted, hgranted, hmore hz]

/-- The end of a release: the slot is given back, if the lock is granted. -/
lemma allocator_of_return {db₁ : Db} (h : (db₁.view g).Allocator g l) (hi : i < g.n)
    (hst : ((db₁.view g).slots i).status ≠ statusFree) :
    ∃ l', ((db₁.efReturnSlotToPool i (g.ptr i)).2.view g).Allocator g l' ∧
      l'.length = l.length + db₁.granted 1 := by
  have hgrant := efReturnSlotToPool_ok_iff_grants h.writable i (g.ptr i)
  rcases efReturnSlotToPool_cases h.toBound h.noIndex hi with ⟨hne, hstill⟩ | ⟨hok, hstill⟩
  · refine ⟨l, h.still hstill, ?_⟩
    rw [granted_of_not (fun h0 => hne (hgrant.mpr h0))]
    rfl
  · refine ⟨i :: l, (h.pushSlot hi hst).still hstill, ?_⟩
    rw [granted_one (hgrant.mp hok)]
    rfl

/-- **`ef_free_slot`** keeps the allocator, whatever it returns, and the list grows by the slots
that are given back. -/
lemma efFreeSlot_count (h : (db.view g).Allocator g l) (i : ℕ) :
    ∃ l', ((db.efFreeSlot i).2.view g).Allocator g l' ∧ l'.length = l.length + db.releaseCount i := by
  unfold releaseCount
  by_cases hacc : db.freeAccepts i
  swap
  · rw [(efFreeSlot_of_not_accepts h.toBound hacc).2, if_neg hacc]
    exact ⟨l, h, rfl⟩
  have hmax : db.sb.maxSlots = g.n := h.maxSlots
  have hi : i < g.n := hmax ▸ hacc.1
  have hst : ((db.view g).slots i).status ≠ statusFree := by
    have hst := hacc.2.1
    rwa [slot_eq h.cap hi] at hst
  have hrecord : ∀ (db₁ : Db) (x y : ℕ), db₁.txnActive = false → db₁.recordFree i x y = db₁ := by
    intro db₁ x y hidle
    unfold recordFree
    rw [hidle]
    rfl
  rw [efFreeSlot_of_accepts h.toBound hacc, if_pos hacc, slot_eq h.cap hi]
  by_cases hused : ((db.view g).slots i).status = statusUsed
  swap
  · rw [if_neg hused, if_neg hused]
    simp only
    rw [hrecord (db.setError .ok) _ _ h.idle]
    have h₀ : ((db.setError .ok).view g).Allocator g l := h
    exact allocator_of_return h₀ hi hst
  rw [if_pos hused, if_pos hused]
  obtain ⟨c, z, hc⟩ := View.exists_chained g (db.view g) ((db.view g).slots i).nextOffset
  obtain ⟨hcard, hends⟩ := overflowChain_of_chained h.toBound hi hc
  rw [hcard]
  -- the head of the chain has its link cleared, then the chain is given back
  have hview₁ := @view_unlinked g (db.setError .ok) i hi
  have henv₁ : (((db.setError .ok).setNext (g.ptr i) 0).efSlotHeaderCrcStore i (g.ptr i)).env =
      db.env := by
    unfold Db.efSlotHeaderCrcStore
    split_ifs <;> rfl
  have hnext : ((db.setError .ok).slotAt (g.ptr i)).nextOffset = ((db.view g).slots i).nextOffset := by
    rw [show (db.setError .ok).slotAt (g.ptr i) = (db.view g).slots i from slotAt_eq db hi]
  unfold efBlobReleaseChain
  simp only
  rw [hnext]
  generalize ((db.setError .ok).setNext (g.ptr i) 0).efSlotHeaderCrcStore i (g.ptr i) = db₁
      at hview₁ henv₁ ⊢
  have hgranted₁ : ∀ n, db₁.granted n = db.granted n := granted_congr
    (congrArg (fun v => v.sb.schemaVersion) hview₁)
        (congrArg (fun v => v.sb.indexWriteLock) hview₁) henv₁
  have halloc₁ : (db₁.view g).Allocator g l := by
    rw [hview₁]
    exact View.Allocator.setSlot (v := db.view g) h hi hst (by rw [Slot.sealed_status]; exact hst)
  have hstat₁ : ((db₁.view g).slots i).status = statusUsed := by
    rw [hview₁, View.setSlot_slots, Function.update_self, Slot.sealed_status]
    exact hused
  have hc₁ : (db₁.view g).Chained g ((db.view g).slots i).nextOffset c z := by
    rw [hview₁]
    exact hc.setSlot (by rw [hused]; simp) (by rw [Slot.sealed_status]; exact hused.trans_ne (by simp))
  have hlen := length_le_of_overflowPath hc.nodup hc.path
  have hmax₁ : db₁.sb.maxSlots = g.n := halloc₁.maxSlots
  obtain ⟨l₂, halloc₂, hkept₂, hdone, hfailed⟩ := releaseChainLoop_count (17 * (db₁.sb.maxSlots + 1))
    halloc₁ hc₁ (by omega)
  have hstat₂ := hkept₂ i (by rw [hstat₁]; simp)
  generalize releaseChainLoop (17 * (db₁.sb.maxSlots + 1)) ((db.view g).slots i).nextOffset db₁ = r
    at halloc₂ hstat₂ hdone hfailed ⊢
  obtain ⟨e, db₂⟩ := r
  by_cases hok : e = .ok
  · subst hok
    obtain ⟨hz, hl₂, hmore⟩ := hdone rfl
    simp only
    rw [hrecord _ _ _ halloc₂.idle, if_pos (hends.mpr hz), ← hgranted₁, hmore]
    obtain ⟨l₃, halloc₃, hl₃⟩ := allocator_of_return halloc₂ hi (by rw [hstat₂, hstat₁]; simp)
    exact ⟨l₃, halloc₃, by rw [hl₃, hl₂]; omega⟩
  · obtain ⟨hl₂, hmore⟩ := hfailed hok
    have hcount : db.granted (c.length + if db.ChainEnds i then 1 else 0) = db₁.granted c.length := by
      rw [← hgranted₁]
      split_ifs with hz
      · exact hmore (hends.mp hz) 1
      · rfl
    have hres : ∃ l', ((db₂.setError e).view g).Allocator g l' ∧
        l'.length = l.length + db.granted (c.length + if db.ChainEnds i then 1 else 0) :=
      ⟨l₂, halloc₂, by rw [hl₂, hcount]⟩
    cases e <;> first | exact absurd rfl hok | exact hres

/-! ### Claims -/

/-- **A claim** of a free slot keeps the allocator. -/
lemma efClaimSlot_allocator (h : (db.view g).Allocator g l) (hlen : l.length < u32) (hi : i < g.n)
    (hfree : ((db.view g).slots i).status = statusFree) :
    ∃ l', ((db.efClaimSlot i).2.view g).Allocator g l' ∧ l'.length < u32 := by
  obtain ⟨z, hlinked, -⟩ := h.chain.linked
  obtain ⟨s, t, rfl⟩ := List.append_of_mem ((h.mem_iff i hi).mpr hfree)
  have hle := h.length_le
  have hcount := h.count
  rw [Nat.mod_eq_of_lt hlen] at hcount
  simp only [List.length_append, List.length_cons] at hle hlen hcount
  have hcount' : (db.view g).sb.freeCount - 1 = (s ++ t).length % u32 := by
    rw [hcount, List.length_append, Nat.mod_eq_of_lt (by omega)]
    omega
  obtain ⟨-, ⟨rfl, hview⟩ | ⟨L, d, rfl, hview⟩⟩ :=
    efClaimSlot_of_linked h.toBound hi hfree hlinked h.nodup (by omega)
  · refine ⟨t, ?_, by simp at hlen; omega⟩
    rw [hview]
    exact ⟨h.toBound.congr rfl rfl rfl rfl, View.FreeListIs.popSlot h.toFreeListIs, h.noIndex, h.idle,
      hcount'⟩
  · refine ⟨L ++ d :: t, ?_, by simp at hlen ⊢; omega⟩
    have hlist : (db.view g).FreeListIs g (L ++ d :: i :: t) := by
      have := h.toFreeListIs
      rwa [List.append_assoc] at this
    rw [hview]
    refine ⟨h.toBound.congr rfl rfl rfl rfl, hlist.claimAt, h.noIndex, h.idle, ?_⟩
    rw [List.append_cons]
    exact hcount'

/-! ### Status changes -/

/-- The free list visits exactly the `FREE` slots, each once, and the free count is their number. -/
def AllocatorSound (db : Db) : Prop := db.FreeListExact ∧ db.sb.freeCount = db.freeSlots.card

instance (db : Db) : Decidable db.AllocatorSound := inferInstanceAs (Decidable (_ ∧ _))

/-- The number of `FREE` slots is the length of the free list. -/
lemma card_freeSlots (h : (db.view g).Bound g) (hl : (db.view g).FreeListIs g l) :
    db.freeSlots.card = l.length := by
  have hmax : db.sb.maxSlots = g.n := h.maxSlots
  have heq : db.freeSlots = l.toFinset := by
    ext j
    unfold freeSlots
    rw [List.mem_toFinset, Finset.mem_filter, Finset.mem_range, hmax]
    constructor
    · rintro ⟨hj, hst⟩
      rw [slot_eq h.cap hj] at hst
      exact (hl.mem_iff j hj).mpr hst
    · intro hj
      have hlt := hl.lt j hj
      rw [slot_eq h.cap hlt]
      exact ⟨hlt, (hl.mem_iff j hlt).mp hj⟩
  rw [heq, List.toFinset_card_of_nodup hl.nodup]

/-- An allocator is sound if its counter can hold the number of `FREE` slots. -/
lemma allocatorSound_iff (h : (db.view g).Allocator g l) :
    db.AllocatorSound ↔ db.freeSlots.card < u32 := by
  have hcount : db.sb.freeCount = l.length % u32 := h.count
  have hcard := card_freeSlots h.toBound h.toFreeListIs
  constructor
  · rintro ⟨-, heq⟩
    rw [← heq]
    exact freeCount_lt g db
  · intro hlt
    refine ⟨(freeListExact_iff h.toBound).mpr ⟨l, h.toFreeListIs⟩, ?_⟩
    rw [hcount, hcard, Nat.mod_eq_of_lt (by rwa [← hcard])]

/-- The stores of `ef_set_status` for a status of its own. -/
lemma view_writeStatus (hi : i < g.n) (hst : st < u32) :
    (if efSlotStatusHasCrc st then (db.setStatus (g.ptr i) st).efSlotHeaderCrcStore i (g.ptr i)
        else (db.setStatus (g.ptr i) st).setHeaderCrc (g.ptr i) 0).view g =
      (db.view g).setSlot i (restatused (db.view g).sb.slotCrc i st ((db.view g).slots i)) := by
  unfold restatused
  split_ifs
  · rw [view_efSlotHeaderCrcStore hi, view_setStatus hi, Nat.mod_eq_of_lt hst]
    simp
  · rw [view_setHeaderCrc hi, view_setStatus hi, Nat.mod_eq_of_lt hst]
    simp

/-- A slot's new status.
Source: `endfields.c`, `ef_set_status` -/
lemma restatused_status (crcOn : Bool) (i : ℕ) (s : Slot) (hst : st < u32) :
    (restatused crcOn i st s).status = st := by
  unfold restatused
  split_ifs
  · rw [Slot.sealed_status, Nat.mod_eq_of_lt hst]
  · exact Nat.mod_eq_of_lt hst

/-- A new status leaves the payload alone.
Source: `endfields.c`, `ef_set_status` -/
@[simp] lemma restatused_payload (crcOn : Bool) (i st : ℕ) (s : Slot) :
    (restatused crcOn i st s).payload = s.payload := by
  unfold restatused
  split_ifs
  · rw [Slot.sealed_payload]
  · rfl

/-- A new status leaves the link alone.
Source: `endfields.c`, `ef_set_status` -/
@[simp] lemma restatused_nextOffset (crcOn : Bool) (i st : ℕ) (s : Slot) :
    (restatused crcOn i st s).nextOffset = s.nextOffset := by
  unfold restatused
  split_ifs
  · rw [Slot.sealed_nextOffset]
  · rfl

/-- A `FREE` slot that is given another status stays on the list. -/
lemma not_freeListIs_of_status {v : View} {s : Slot} (h : v.FreeListIs g l) (hi : i < g.n)
    (hfree : (v.slots i).status = statusFree) (hs : s.status ≠ statusFree)
    (hnext : s.nextOffset = (v.slots i).nextOffset) (l' : List ℕ) :
    ¬ (v.setSlot i s).FreeListIs g l' := by
  intro h'
  have hsame : ∀ j, ((v.setSlot i s).slots j).nextOffset = (v.slots j).nextOffset := by
    intro j
    rw [View.setSlot_slots, Function.update_apply]
    split_ifs with hji
    · rw [hji, hnext]
    · rfl
  have hl : l' = l := h'.chain.unique (h.chain.congr fun j _ => hsame j)
  have hmem := (h.mem_iff i hi).mpr hfree
  rw [← hl, h'.mem_iff i hi, View.setSlot_slots, Function.update_self] at hmem
  exact hs hmem

/-- The last error before a release does not matter. -/
lemma efFreeSlot_setError (h : (db.view g).Bound g) (hi : i < g.n) (e : Err) :
    (db.setError e).efFreeSlot i = db.efFreeSlot i := by
  have h' : ((db.setError e).view g).Bound g := h
  unfold efFreeSlot
  rw [efDbRequireWrite_eq h.writable, efDbRequireWrite_eq h'.writable]
  simp only
  rw [efPeekSlot_of_lt h hi, efPeekSlot_of_lt h' hi]
  rfl

/-- A claim does not look at the stored error.
Source: `endfields.c`, `ef_claim_slot` -/
lemma efClaimSlot_setError (h : (db.view g).Bound g) (hi : i < g.n) (e : Err) :
    (db.setError e).efClaimSlot i = db.efClaimSlot i := by
  have h' : ((db.setError e).view g).Bound g := h
  have heq : (db.setError e).setError .ok = db.setError .ok := rfl
  unfold efClaimSlot
  rw [efPeekSlot_of_lt h hi, efPeekSlot_of_lt h' hi, heq]

/-- The cases of `ef_set_status`, for a slot of a writable handle outside transactions. -/
lemma efSetStatus_cases (h : (db.view g).Bound g) (hi : i < g.n) (hidle : db.txnActive = false)
    (hst : st < u32) :
    (st = statusFree ∧ (db.efSetStatus i st).2.view g = (db.efFreeSlot i).2.view g) ∨
      (st = statusUsed ∧ ((db.view g).slots i).status = statusFree ∧
        (db.efSetStatus i st).2.view g = (db.efClaimSlot i).2.view g) ∨
      (st = statusUsed ∧ ((db.view g).slots i).status = statusUsed ∧
        (db.efSetStatus i st).2.view g = db.view g) ∨
      (st ≠ statusFree ∧ (st = statusUsed → ((db.view g).slots i).status ≠ statusFree) ∧
        (db.efSetStatus i st).2.view g = (db.view g).setSlot i
          (restatused (db.view g).sb.slotCrc i st ((db.view g).slots i))) := by
  have hslot : (db.setError .ok).slotAt (g.ptr i) = (db.view g).slots i := slotAt_eq db hi
  have hidle₀ : (db.setError .ok).txnActive = false := hidle
  have hcrc : (db.setError .ok).view g = db.view g := rfl
  unfold efSetStatus
  rw [efDbRequireWrite_eq h.writable]
  simp only
  rw [efPeekSlot_of_lt h hi]
  simp only [hslot, hidle₀, Bool.false_eq_true, if_false]
  by_cases hfree : st = statusFree
  · rw [if_pos hfree]
    refine .inl ⟨hfree, ?_⟩
    by_cases hprior : ((db.view g).slots i).status = statusFree
    · have hnot : ¬ db.freeAccepts i := by
        unfold freeAccepts
        rw [slot_eq h.cap hi]
        exact fun hacc => hacc.2.1 hprior
      rw [if_pos hprior, (efFreeSlot_of_not_accepts h hnot).2]
      rfl
    · rw [if_neg hprior, efFreeSlot_setError h hi]
  rw [if_neg hfree]
  by_cases hused : st = statusUsed
  · rw [if_pos hused]
    by_cases hprior : ((db.view g).slots i).status = statusFree
    · rw [if_pos hprior]
      rw [efClaimSlot_setError h hi]
      exact .inr (.inl ⟨hused, hprior, rfl⟩)
    rw [if_neg hprior]
    by_cases hsame : ((db.view g).slots i).status = statusUsed
    · rw [if_pos hsame]
      exact .inr (.inr (.inl ⟨hused, hsame, rfl⟩))
    · rw [if_neg hsame]
      have hview := @view_writeStatus g (db.setError .ok) i statusUsed hi (by decide)
      rw [if_pos (by decide)] at hview
      rw [hused]
      exact .inr (.inr (.inr ⟨by decide, fun _ => hprior, hview⟩))
  · rw [if_neg hused]
    have hview := @view_writeStatus g (db.setError .ok) i st hi hst
    exact .inr (.inr (.inr ⟨hfree, fun h0 => absurd h0 hused, hview⟩))

/-- **A status change keeps the allocator sound** exactly if it does not give a `FREE` slot a status
other than `FREE` and `USED`, and, for a release, if the counter can hold the `FREE` slots and those
that are given back.
Source: `endfields.c`, `ef_set_status` -/
theorem efSetStatus_sound_iff (hm : db.Mapped) (hcap : db.hashCapacity = 0)
    (hidle : db.txnActive = false) (hs : db.AllocatorSound) (hst : st < u32) :
    (db.efSetStatus i st).2.AllocatorSound ↔
      (db.readonly = false → i < db.sb.maxSlots → (db.slot i).status = statusFree →
        st = statusFree ∨ st = statusUsed) ∧
        (db.readonly = false → st = statusFree → db.freeSlots.card + db.releaseCount i < u32) := by
  have hlt : db.freeSlots.card < u32 := by
    rw [← hs.2]
    exact load_lt db.mem 32 4
  have hsame : ∀ e : Err, (db.setError e).AllocatorSound := fun e => hs
  by_cases hw : db.readonly = false
  swap
  · have hro : db.readonly = true := by simpa using hw
    unfold efSetStatus efDbRequireWrite
    rw [if_pos hro]
    exact iff_of_true (hsame _) ⟨fun h0 => absurd h0 hw, fun h0 => absurd h0 hw⟩
  obtain ⟨g, h⟩ := hm.geometry hw
  have hmax : db.sb.maxSlots = g.n := h.maxSlots
  by_cases hi : i < g.n
  swap
  · have hnone : db.releaseCount i = 0 := if_neg fun hacc => hi (hmax ▸ hacc.1)
    unfold efSetStatus
    rw [efDbRequireWrite_eq h.writable]
    simp only
    rw [efPeekSlot_of_ge h (by omega)]
    refine iff_of_true (hsame _) ⟨fun _ h0 => absurd (hmax ▸ h0) hi, fun _ _ => ?_⟩
    rwa [hnone, Nat.add_zero]
  obtain ⟨l, hl⟩ := (freeListExact_iff h).mp hs.1
  have hlen : db.freeSlots.card = l.length := card_freeSlots h hl
  have hshort : l.length < u32 := hlen ▸ hlt
  have halloc : (db.view g).Allocator g l := by
    refine ⟨h, hl, h.cap.symm.trans hcap, hidle, ?_⟩
    rw [Nat.mod_eq_of_lt hshort, ← hlen]
    exact hs.2
  have hiff : db.readonly = false → i < db.sb.maxSlots → (db.slot i).status = statusFree →
      ((db.view g).slots i).status = statusFree := fun _ _ h0 => by rwa [slot_eq h.cap hi] at h0
  rcases efSetStatus_cases h hi hidle hst with ⟨hfree, hview⟩ | ⟨hused, hprior, hview⟩ |
    ⟨hused, -, hview⟩ | ⟨hne, hprior, hview⟩
  · -- a release
    obtain ⟨l', halloc', hlen'⟩ := efFreeSlot_count halloc i
    have halloc₁ : ((db.efSetStatus i st).2.view g).Allocator g l' := by rwa [hview]
    rw [allocatorSound_iff halloc₁, card_freeSlots halloc₁.toBound halloc₁.toFreeListIs, hlen', hlen]
    exact ⟨fun h0 => ⟨fun _ _ _ => .inl hfree, fun _ _ => h0⟩, fun h0 => h0.2 hw hfree⟩
  · -- a claim
    obtain ⟨l', halloc', hlen'⟩ := efClaimSlot_allocator halloc hshort hi hprior
    have halloc₁ : ((db.efSetStatus i st).2.view g).Allocator g l' := by rwa [hview]
    rw [allocatorSound_iff halloc₁, card_freeSlots halloc₁.toBound halloc₁.toFreeListIs]
    exact iff_of_true hlen'
      ⟨fun _ _ _ => .inr hused, fun _ h0 => absurd (h0.symm.trans hused) (by decide)⟩
  · have halloc₁ : ((db.efSetStatus i st).2.view g).Allocator g l := by rwa [hview]
    rw [allocatorSound_iff halloc₁, card_freeSlots halloc₁.toBound halloc₁.toFreeListIs, ← hlen]
    exact iff_of_true hlt
      ⟨fun _ _ _ => .inr hused, fun _ h0 => absurd (h0.symm.trans hused) (by decide)⟩
  · -- a status written over the old one
    have hsne : (restatused (db.view g).sb.slotCrc i st ((db.view g).slots i)).status ≠ statusFree := by
      rwa [restatused_status _ _ _ hst]
    by_cases hold : ((db.view g).slots i).status = statusFree
    · have hnot : ¬ (db.efSetStatus i st).2.AllocatorSound := by
        intro hsound
        have hb : ((db.efSetStatus i st).2.view g).Bound g := by
          rw [hview]
          exact View.bound_setSlot.mpr h
        obtain ⟨l', hl'⟩ := (freeListExact_iff hb).mp hsound.1
        rw [hview] at hl'
        exact not_freeListIs_of_status hl hi hold hsne (restatused_nextOffset ..) l' hl'
      refine iff_of_false hnot fun h0 => ?_
      rcases h0.1 hw (by omega) (by rwa [slot_eq h.cap hi]) with h1 | h1
      · exact hne h1
      · exact hprior h1 hold
    · have halloc₁ : ((db.efSetStatus i st).2.view g).Allocator g l := by
        rw [hview]
        exact halloc.setSlot hi hold hsne
      rw [allocatorSound_iff halloc₁, card_freeSlots halloc₁.toBound halloc₁.toFreeListIs, ← hlen]
      exact iff_of_true hlt
        ⟨fun h1 h2 h3 => absurd (hiff h1 h2 h3) hold, fun _ h0 => absurd h0 hne⟩

/-- The release of a used slot with an overflow slot behind it, in a database of three slots. -/
theorem efSetStatus_sound_of_chain :
    let db := ((newMemory 3 0).efAllocSlot.2.2.efWriteBlob 0 (List.replicate 50 7)).2
    (db.slot 0).status = statusUsed ∧ db.overflowChain 0 = [1] ∧ db.releaseCount 0 = 2 ∧
      ((db.efSetStatus 0 statusFree).2.AllocatorSound ↔
        (db.readonly = false → 0 < db.sb.maxSlots → (db.slot 0).status = statusFree →
          statusFree = statusFree ∨ statusFree = statusUsed) ∧
          (db.readonly = false → statusFree = statusFree →
            db.freeSlots.card + db.releaseCount 0 < u32)) :=
  ⟨by decide +kernel, by decide +kernel, by decide +kernel,
    efSetStatus_sound_iff (by decide +kernel) (by decide +kernel) (by decide +kernel)
      (by decide +kernel) (by decide)⟩

/-- The only slot, `FREE`, is made an overflow slot: it stays at the head of the free list, and the
free count stays 1. -/
theorem efSetStatus_leaves_listed :
    let db := newMemory 1 0
    db.Mapped ∧ db.hashCapacity = 0 ∧ db.txnActive = false ∧ db.AllocatorSound ∧
      (db.efSetStatus 0 statusOverflow).1 = .ok ∧
      ((db.efSetStatus 0 statusOverflow).2.slot 0).status = statusOverflow ∧
      (db.efSetStatus 0 statusOverflow).2.freeChain 2
        (db.efSetStatus 0 statusOverflow).2.sb.freeListHead = [0] ∧
      (db.efSetStatus 0 statusOverflow).2.sb.freeCount = 1 ∧
      ¬ (db.efSetStatus 0 statusOverflow).2.AllocatorSound := by decide +kernel

end Db

end Endfields.Model
