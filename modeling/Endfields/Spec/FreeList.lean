import Endfields.Lib.Chain
import Endfields.Spec.Alloc

/-!
# The free list

The free list as a linked list of slots, and what allocation and release do to it.

* `Db.freeChain`: the slots met from an offset on; `Db.FreeListExact`: the list visits exactly the
  `FREE` slots, each once.
* `View.FreeListIs g v l`: the list of the view is `l`, and holds exactly the `FREE` slots.
* `Db.releases`: whether `ef_free_slot` gives a slot back to the pool, read off the state before the
  call. A call that does not leaves the statuses and the free list as they are
  (`efFreeSlot_of_not_releases`).
-/

namespace Endfields.Model

open Endfields.Lib

namespace Db

/-- The free list from an offset on, as far as `k` links lead. -/
def freeChain (db : Db) (k off : ℕ) : List ℕ :=
  walk db.efSlotAtOffset (fun i => (db.slot i).nextOffset) k off

/-- The free list visits exactly the slots whose status is `FREE`, each once. -/
def FreeListExact (db : Db) : Prop :=
  let l := db.freeChain (db.sb.maxSlots + 1) db.sb.freeListHead
  l.Nodup ∧ ∀ i, i < db.sb.maxSlots → (i ∈ l ↔ (db.slot i).status = statusFree)

instance (db : Db) : Decidable db.FreeListExact :=
  inferInstanceAs (Decidable (_ ∧ _))

/-- `ef_free_slot` takes the slot on: its status is not one that the call refuses, and its checksum
is right.
Source: `endfields.c`, `ef_free_slot` -/
def freeAccepts (db : Db) (slotId : ℕ) : Prop :=
  let s := db.slot slotId
  slotId < db.sb.maxSlots ∧ s.status ≠ statusFree ∧ s.status ≠ statusQueued ∧
    ¬ (s.status = statusQueueDummy ∨ s.status = statusQueueLink ∨ s.status = statusQueueDeq) ∧
    ¬ ((s.status = statusUsed ∨ s.status = statusOverflow) ∧
      db.efSlotHeaderCrcValid slotId s = false)

/-- `ef_free_slot` gives the slot back to the pool, with the slots chained from it: it takes the
slot on, and a used slot has no link or a link to an overflow slot.
Source: `endfields.c`, `ef_free_slot`; `ef_blob.c`, `ef_blob_release_chain` -/
def releases (db : Db) (slotId : ℕ) : Prop :=
  db.freeAccepts slotId ∧
    ((db.slot slotId).status = statusUsed →
      (db.slot slotId).nextOffset = 0 ∨ db.efSlotHasOverflowChain (db.slotPtr slotId) = true)

/-- The slot is met on the free list within the steps that `ef_unlink_free_slot` makes. -/
def onFreeList (db : Db) (slotId : ℕ) : Prop :=
  slotId ∈ db.freeChain (db.sb.maxSlots + 2) db.sb.freeListHead

instance (db : Db) (slotId : ℕ) : Decidable (db.freeAccepts slotId) :=
  inferInstanceAs (Decidable (_ ∧ _))

instance (db : Db) (slotId : ℕ) : Decidable (db.releases slotId) :=
  inferInstanceAs (Decidable (_ ∧ _))

instance (db : Db) (slotId : ℕ) : Decidable (db.onFreeList slotId) :=
  inferInstanceAs (Decidable (_ ∈ _))

end Db

/-! ### The list on the view -/

namespace View

variable {g : Geometry} {v w : View} {l : List ℕ} {i : ℕ}

/-- The free list of the view is `l`, and holds exactly the `FREE` slots. -/
structure FreeListIs (g : Geometry) (v : View) (l : List ℕ) : Prop where
  chain : Chain g.idOf (fun i => (v.slots i).nextOffset) v.sb.freeListHead l
  nodup : l.Nodup
  mem_iff : ∀ i, i < g.n → (i ∈ l ↔ (v.slots i).status = statusFree)

/-- The head of the list, as an offset. -/
lemma freeHead_ptr {v : View} {i : ℕ} (h : v.freeHead g = some i) :
    v.sb.freeListHead = g.ptr i := by
  unfold freeHead at h
  split_ifs at h
  exact ((g.idOf_eq_some_iff _ _).mp h).2

/-- A list with a head has a count. -/
lemma freeHead_count {v : View} {i : ℕ} (h : v.freeHead g = some i) : v.sb.freeCount ≠ 0 := by
  unfold freeHead at h
  split_ifs at h with hc
  exact hc

/-- The head moves to the next slot.
Source: `endfields.c`, `ef_alloc_slot_ex` -/
@[simp] lemma popSlot_head (v : View) (c : Bool) (i : ℕ) :
    (v.popSlot c i).sb.freeListHead = (v.slots i).nextOffset := rfl

/-- The count goes down by one.
Source: `endfields.c`, `ef_alloc_slot_ex` -/
@[simp] lemma popSlot_count (v : View) (c : Bool) (i : ℕ) :
    (v.popSlot c i).sb.freeCount = v.sb.freeCount - 1 := rfl

/-- The link of the popped slot is cleared.
Source: `endfields.c`, `ef_alloc_slot_ex` -/
lemma popSlot_next (v : View) (c : Bool) (i j : ℕ) :
    ((v.popSlot c i).slots j).nextOffset = if j = i then 0 else (v.slots j).nextOffset := by
  unfold popSlot
  rw [setSlot_slots, Function.update_apply]
  split_ifs with hji
  · simp [allocated]
  · rfl

/-- The popped slot becomes USED.
Source: `endfields.c`, `ef_alloc_slot_ex` -/
lemma popSlot_status (v : View) (c : Bool) (i j : ℕ) :
    ((v.popSlot c i).slots j).status = if j = i then statusUsed else (v.slots j).status := by
  unfold popSlot
  rw [setSlot_slots, Function.update_apply]
  split_ifs with hji
  · simp [allocated]
  · rfl

/-- The list depends on the head, the statuses, and the links of the `FREE` slots. -/
lemma FreeListIs.congr (h : v.FreeListIs g l) (hhead : w.sb.freeListHead = v.sb.freeListHead)
    (hstatus : ∀ i, i < g.n → (w.slots i).status = (v.slots i).status)
    (hnext : ∀ i, i < g.n → (v.slots i).status = statusFree →
      (w.slots i).nextOffset = (v.slots i).nextOffset)
    (hmem : ∀ i ∈ l, i < g.n) : w.FreeListIs g l where
  chain := by
    rw [hhead]
    refine h.chain.congr fun i hi => hnext i (hmem i hi) ?_
    exact (h.mem_iff i (hmem i hi)).mp hi
  nodup := h.nodup
  mem_iff := by
    intro i hi
    rw [hstatus i hi]
    exact h.mem_iff i hi

/-- The slots of a chain are slots. -/
lemma lt_of_mem_chain {off : ℕ} (h : Chain g.idOf (fun i => (v.slots i).nextOffset) off l) :
    ∀ i ∈ l, i < g.n := by
  induction l generalizing off with
  | nil =>
      intro i hi
      exact absurd hi List.not_mem_nil
  | cons a l ih =>
      intro i hi
      rcases List.mem_cons.mp hi with rfl | hi
      · exact ((g.idOf_eq_some_iff _ _).mp h.1).1
      · exact ih h.2 i hi

/-- A listed slot is a slot of the layout. -/
lemma FreeListIs.lt (h : v.FreeListIs g l) : ∀ i ∈ l, i < g.n := lt_of_mem_chain h.chain

/-- The head of the list is what an allocation takes. -/
lemma FreeListIs.freeHead (h : v.FreeListIs g l) (hi : v.freeHead g = some i) :
    ∃ l', l = i :: l' := by
  have hid : g.idOf v.sb.freeListHead = some i := by
    unfold View.freeHead at hi
    split_ifs at hi
    exact hi
  cases l with
  | nil => exact absurd (h.chain.symm.trans hid) (by simp)
  | cons a l' =>
      have ha := h.chain.1
      rw [hid] at ha
      exact ⟨l', by rw [Option.some.inj ha]⟩

/-- Taking the head leaves the rest of the list. -/
lemma FreeListIs.popSlot {c : Bool} (h : v.FreeListIs g (i :: l)) :
    (v.popSlot c i).FreeListIs g l := by
  obtain ⟨hni, hnd⟩ := List.nodup_cons.mp h.nodup
  refine ⟨?_, hnd, ?_⟩
  · rw [popSlot_head]
    refine h.chain.2.congr fun j hj => ?_
    rw [popSlot_next, if_neg]
    rintro rfl
    exact hni hj
  · intro j hj
    rw [popSlot_status]
    split_ifs with hji
    · simp [hji, hni]
    · rw [← h.mem_iff j hj, List.mem_cons]
      simp [hji]

end View

namespace Db

variable {g : Geometry} {db : Db}

/-- The chain of the list, read off the view. -/
lemma freeChain_eq (h : (db.view g).Bound g) (k off : ℕ) :
    db.freeChain k off = walk g.idOf (fun i => ((db.view g).slots i).nextOffset) k off := by
  unfold freeChain
  induction k generalizing off with
  | zero => rfl
  | succ k ih =>
      unfold walk
      rw [efSlotAtOffset_eq h]
      rcases hid : g.idOf off with _ | i
      · rfl
      · simp only [slot_eq h.cap ((g.idOf_eq_some_iff _ _).mp hid).1, ih]

/-- The order of the free list depends on the links alone. -/
lemma freeChain_congr {db' : Db} (h : (db.view g).Bound g) (h' : (db'.view g).Bound g)
    (hnext : ∀ i, i < g.n → ((db'.view g).slots i).nextOffset = ((db.view g).slots i).nextOffset)
    (k off : ℕ) : db'.freeChain k off = db.freeChain k off := by
  rw [freeChain_eq h, freeChain_eq h']
  induction k generalizing off with
  | zero => rfl
  | succ k ih =>
      unfold walk
      rcases hid : g.idOf off with _ | i
      · rfl
      · simp only [hnext i ((g.idOf_eq_some_iff _ _).mp hid).1, ih]

/-- The list of the image is the list of the view. -/
lemma freeListExact_iff (h : (db.view g).Bound g) :
    db.FreeListExact ↔ ∃ l, (db.view g).FreeListIs g l := by
  have hmax : db.sb.maxSlots = g.n := h.maxSlots
  unfold FreeListExact
  simp only [freeChain_eq h, hmax]
  constructor
  · rintro ⟨hnd, hmem⟩
    have hlt : ∀ i ∈ walk g.idOf (fun i => ((db.view g).slots i).nextOffset) (g.n + 1)
        db.sb.freeListHead, i < g.n := by
      intro i hi
      obtain ⟨o, ho⟩ := exists_of_mem_walk hi
      exact ((g.idOf_eq_some_iff _ _).mp ho).1
    -- a walk without repetition visits at most all slots, so it has come to its end
    have hlen : (walk g.idOf (fun i => ((db.view g).slots i).nextOffset) (g.n + 1)
        db.sb.freeListHead).length ≤ g.n := by
      have hsub := hnd.subperm fun i hi => List.mem_range.mpr (hlt i hi)
      simpa using hsub.length_le
    refine ⟨_, chain_walk (Nat.lt_succ_of_le hlen), hnd, ?_⟩
    intro i hi
    rw [← slot_eq h.cap hi]
    exact hmem i hi
  · rintro ⟨l, hl⟩
    have hlen : l.length ≤ g.n := by
      have hsub := hl.nodup.subperm fun i hi =>
        List.mem_range.mpr (hl.lt i hi)
      simpa using hsub.length_le
    have hwalk : walk g.idOf (fun i => ((db.view g).slots i).nextOffset) (g.n + 1)
        db.sb.freeListHead = l := hl.chain.walk_eq (by omega)
    rw [hwalk]
    refine ⟨hl.nodup, ?_⟩
    intro i hi
    rw [slot_eq h.cap hi]
    exact hl.mem_iff i hi

/-! ### Refused releases -/

variable {i : ℕ}

/-- A failing translation gives an error.
Source: `endfields.c`, `ef_offset_to_slot_id` -/
lemma efOffsetToSlotId_ne_error_ok {off : ℕ} : db.efOffsetToSlotId off ≠ .error .ok := by
  unfold efOffsetToSlotId
  split_ifs <;> simp

/-- The slots are read through the view: the chain of an overflow slot. -/
lemma efSlotHasOverflowChain_eq (h : (db.view g).Bound g) (hi : i < g.n) :
    db.efSlotHasOverflowChain (g.ptr i) = true ↔
      ∃ j, j < g.n ∧ ((db.view g).slots i).nextOffset = g.ptr j ∧
        ((db.view g).slots j).status = statusOverflow := by
  unfold efSlotHasOverflowChain
  rw [slotAt_eq db hi]
  constructor
  · intro hc
    split_ifs at hc with h0
    rcases hid : db.efOffsetToSlotId ((db.view g).slots i).nextOffset with e | j
    · rw [hid] at hc
      cases hc
    · obtain ⟨hj, hptr⟩ := (efOffsetToSlotId_eq_ok_iff h _ _).mp hid
      rw [hid] at hc
      simp only [decide_eq_true_eq] at hc
      rw [slot_eq h.cap hj] at hc
      exact ⟨j, hj, hptr, hc⟩
  · rintro ⟨j, hj, hptr, hstatus⟩
    rw [hptr, if_neg (g.ptr_ne_zero j), efOffsetToSlotId_ptr h hj]
    simp only [slot_eq h.cap hj, decide_eq_true_eq]
    exact hstatus

/-- A link that does not lead to an overflow slot makes the release of the chain fail, after the
link was cleared. -/
lemma efBlobReleaseChain_of_dangling (h : (db.view g).Bound g) (hi : i < g.n)
    (hne : ((db.view g).slots i).nextOffset ≠ 0)
    (hdangling : ∀ j, j < g.n → ((db.view g).slots i).nextOffset = g.ptr j →
      ((db.view g).slots j).status ≠ statusOverflow) :
    (db.efBlobReleaseChain i (g.ptr i)).1 ≠ .ok ∧
      (db.efBlobReleaseChain i (g.ptr i)).2.view g = (db.view g).setSlot i
        (Slot.sealed (db.view g).sb.slotCrc i { (db.view g).slots i with nextOffset := 0 }) := by
  set db₁ := (db.setNext (g.ptr i) 0).efSlotHeaderCrcStore i (g.ptr i) with hdb₁
  have hview₁ : db₁.view g = (db.view g).setSlot i
      (Slot.sealed (db.view g).sb.slotCrc i { (db.view g).slots i with nextOffset := 0 }) := by
    rw [hdb₁, view_efSlotHeaderCrcStore hi, view_setNext hi]
    simp
  have hok₁ : (db₁.view g).Bound g := by rwa [hview₁, View.bound_setSlot]
  have hstatus₁ : ∀ j, ((db₁.view g).slots j).status = ((db.view g).slots j).status := by
    intro j
    rw [hview₁, View.setSlot_slots, Function.update_apply]
    split_ifs with hji
    · rw [Slot.sealed_status, hji]
    · rfl
  obtain ⟨fuel, hfuel⟩ : ∃ k, 17 * (db₁.sb.maxSlots + 1) = k + 1 :=
    ⟨17 * (db₁.sb.maxSlots + 1) - 1, by omega⟩
  have heq : db.efBlobReleaseChain i (g.ptr i) =
      releaseChainLoop (fuel + 1) ((db.view g).slots i).nextOffset db₁ := by
    rw [← hfuel, ← slotAt_eq db hi]
    rfl
  rw [heq, releaseChainLoop, if_neg hne]
  rcases hid : db₁.efOffsetToSlotId ((db.view g).slots i).nextOffset with e | j
  · refine ⟨?_, hview₁⟩
    rintro rfl
    exact efOffsetToSlotId_ne_error_ok hid
  · obtain ⟨hj, hptr⟩ := (efOffsetToSlotId_eq_ok_iff hok₁ _ _).mp hid
    simp only
    rw [slotPtr_eq hok₁.cap, slotAt_eq db₁ hj, hstatus₁ j, if_pos (hdangling j hj hptr)]
    exact ⟨fun h0 => (by cases h0), hview₁⟩

/-- **A release that is refused** leaves the view as it is. -/
lemma efFreeSlot_of_not_accepts (h : (db.view g).Bound g) (hr : ¬ db.freeAccepts i) :
    (db.efFreeSlot i).1 ≠ .ok ∧ (db.efFreeSlot i).2.view g = db.view g := by
  have hmax : db.sb.maxSlots = g.n := h.maxSlots
  unfold efFreeSlot
  rw [efDbRequireWrite_eq h.writable]
  simp only
  by_cases hi : i < g.n
  swap
  · rw [efPeekSlot_of_ge h (by omega)]
    exact ⟨fun h0 => (by cases h0), rfl⟩
  rw [efPeekSlot_of_lt h hi]
  have hslot : (db.setError .ok).slotAt (g.ptr i) = (db.view g).slots i := slotAt_eq db hi
  simp only [hslot]
  unfold freeAccepts at hr
  rw [slot_eq h.cap hi, hmax] at hr
  by_cases h1 : ((db.view g).slots i).status = statusFree
  · rw [if_pos h1]
    exact ⟨fun h0 => (by cases h0), rfl⟩
  by_cases h2 : ((db.view g).slots i).status = statusQueued
  · rw [if_neg h1, if_pos h2]
    exact ⟨fun h0 => (by cases h0), rfl⟩
  rw [if_neg h1, if_neg h2]
  split_ifs with h3 h4 h5
  · exact ⟨fun h0 => (by cases h0), rfl⟩
  · exact ⟨fun h0 => (by cases h0), rfl⟩
  · exact absurd ⟨hi, h1, h2, h3, h4⟩ hr
  · exact absurd ⟨hi, h1, h2, h3, h4⟩ hr

/-- A call that releases no slot leaves the view as it is, but for the link of a used slot whose
chain cannot be released. -/
lemma efFreeSlot_of_not_releases (h : (db.view g).Bound g) (hr : ¬ db.releases i) :
    (db.efFreeSlot i).1 ≠ .ok ∧
      ((db.efFreeSlot i).2.view g = db.view g ∨
        i < g.n ∧ ((db.view g).slots i).status = statusUsed ∧
        (db.efFreeSlot i).2.view g = (db.view g).setSlot i
          (Slot.sealed (db.view g).sb.slotCrc i
            { (db.view g).slots i with nextOffset := 0 })) := by
  by_cases hacc : db.freeAccepts i
  swap
  · obtain ⟨herr, hview⟩ := efFreeSlot_of_not_accepts h hacc
    exact ⟨herr, .inl hview⟩
  have hmax : db.sb.maxSlots = g.n := h.maxSlots
  have hi : i < g.n := hmax ▸ hacc.1
  have hacc' := hacc
  unfold freeAccepts at hacc'
  rw [slot_eq h.cap hi] at hacc'
  obtain ⟨-, h1, h2, h3, h4⟩ := hacc'
  unfold releases at hr
  rw [slot_eq h.cap hi, slotPtr_eq h.cap, efSlotHasOverflowChain_eq h hi] at hr
  simp only [hacc, true_and, Classical.not_imp] at hr
  obtain ⟨hused, hlink⟩ := hr
  have hok₀ : ((db.setError .ok).view g).Bound g := h
  obtain ⟨herr, hview⟩ := efBlobReleaseChain_of_dangling hok₀ hi (fun h0 => hlink (.inl h0))
    fun j hj hptr hst => hlink (.inr ⟨j, hj, hptr, hst⟩)
  have hslot : (db.setError .ok).slotAt (g.ptr i) = (db.view g).slots i := slotAt_eq db hi
  have hvalid : (db.setError .ok).efSlotHeaderCrcValid i ((db.view g).slots i) =
      db.efSlotHeaderCrcValid i ((db.view g).slots i) := rfl
  unfold efFreeSlot
  rw [efDbRequireWrite_eq h.writable]
  simp only
  rw [efPeekSlot_of_lt h hi]
  simp only [hslot, hvalid]
  rw [if_neg h1, if_neg h2, if_neg h3, if_neg h4, if_pos hused]
  rcases hc : (db.setError .ok).efBlobReleaseChain i (g.ptr i) with ⟨e, db₁⟩
  rw [hc] at herr hview
  cases e <;> first | exact absurd rfl herr | exact ⟨herr, .inr ⟨hi, hused, hview⟩⟩

/-! ### Refused claims -/

/-- The search for a slot that is not on the list ends without it. -/
lemma unlinkFreeSlotLoop_of_not_mem (h : (db.view g).Bound g) (hi : i < g.n) (p : ℕ) (k off : ℕ)
    (hmem : i ∉ db.freeChain (k + 1) off) :
    db.unlinkFreeSlotLoop p (g.ptr i) k (db.efSlotAtOffset off) = (.notFound, db) := by
  induction k generalizing off with
  | zero => rfl
  | succ k ih =>
      unfold freeChain walk at hmem
      rcases hc : db.efSlotAtOffset off with _ | c
      · rfl
      · rw [hc] at hmem
        simp only [List.mem_cons, not_or] at hmem
        have hne : ¬ (db.slot c).nextOffset = g.ptr i := by
          intro heq
          refine hmem.2 ?_
          unfold walk
          rw [heq, efSlotAtOffset_eq h, g.idOf_ptr hi]
          exact List.mem_cons_self
        rw [unlinkFreeSlotLoop, if_neg hne]
        exact ih _ hmem.2

/-- **A claim of a slot that is not on the free list** is refused. -/
lemma efClaimSlot_of_not_onFreeList (h : (db.view g).Bound g) (hi : i < g.n)
    (hfree : ((db.view g).slots i).status = statusFree) (hmem : ¬ db.onFreeList i) :
    (db.efClaimSlot i).1 ≠ .ok ∧ (db.efClaimSlot i).2.view g = db.view g := by
  have hok₀ : ((db.setError .ok).view g).Bound g := h
  have hslot : ∀ e e' : Err, ((db.setError e).setError e').slotAt (g.ptr i) =
      (db.view g).slots i := fun _ _ => slotAt_eq db hi
  have hslot' : (db.setError .ok).slotAt (g.ptr i) = (db.view g).slots i := slotAt_eq db hi
  have hhead : ¬ db.sb.freeListHead = g.ptr i := by
    intro heq
    refine hmem ?_
    unfold onFreeList freeChain walk
    rw [heq, efSlotAtOffset_eq h, g.idOf_ptr hi]
    exact List.mem_cons_self
  have hunlink : (db.setError .ok).efUnlinkFreeSlot i =
      (.notFound, (db.setError .ok).setError .ok) := by
    unfold efUnlinkFreeSlot
    rw [efPeekSlot_of_lt hok₀ hi]
    simp only [hslot, hfree, ne_eq, not_true, if_false]
    have hok₁ : (((db.setError .ok).setError .ok).view g).Bound g := h
    rw [efSlotToOffset_of_lt hok₁ hi]
    refine (if_neg hhead).trans ?_
    exact unlinkFreeSlotLoop_of_not_mem hok₁ hi _ _ _ hmem
  unfold efClaimSlot
  rw [efPeekSlot_of_lt h hi]
  simp only [hslot', hfree, hunlink]
  exact ⟨fun h0 => (by cases h0), rfl⟩

end Db

end Endfields.Model
