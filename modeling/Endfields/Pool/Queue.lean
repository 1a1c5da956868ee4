import Endfields.Pool.Write

/-!
# The queue on the pool

What pushes and pops do to a pool, on a calm handle.

* `efQueueDummyOffset_pool`: the dummy is there, or is made from a free slot.
* **Push** (`efQueuePush_pool`): the message is appended to the queue, or nothing is.
* **Pop** (`efQueuePop_pool`): the first message is delivered and its slot goes back to the pool.
* `efQueueEmpty_iff`, `efQueueDrained_iff`: the two tests for an empty queue.
-/

namespace Endfields.Model

open Endfields.Lib

namespace View

variable {g : Geometry} {v w : View} {d i n : ℕ} {l q q' : List ℕ}

/-- A change of the queue's own slots and words. -/
lemma Pool.requeue (h : v.Pool g l q) (hset : SameSettings v w)
    (hhead : w.sb.freeListHead = v.sb.freeListHead) (hcount : w.sb.freeCount = v.sb.freeCount)
    (hstatus : ∀ j, (w.slots j).status = statusFree ↔ (v.slots j).status = statusFree)
    (hnext : ∀ j, (v.slots j).status = statusFree →
      (w.slots j).nextOffset = (v.slots j).nextOffset)
    (hq : w.HasQueue g q') : w.Pool g l q' where
  toCalm := h.toCalm.congr hset
  linked := by
    rw [hhead]
    exact h.linked.mono fun o a ha ho => ⟨ho, (hnext a (h.free ha)).symm ▸ rfl⟩
  nodup := h.nodup
  mem_iff j := by rw [hstatus j, h.mem_iff j]
  count hn := hcount.trans (h.count hn)
  queue := hq

/-- The log is no part of the pool. -/
lemma Pool.setSeg (h : v.Pool g l q) (seg : Segment) : (v.setSeg seg).Pool g l q :=
  h.requeue ⟨rfl, rfl, rfl, rfl, rfl, rfl⟩ rfl rfl (fun _ => Iff.rfl) (fun _ _ => rfl)
    (h.queue.congr_off rfl rfl fun _ _ => rfl)

/-- Slot `i` as the dummy of an empty queue. -/
def dummySlot (v : View) (i : ℕ) : Slot :=
  Slot.sealed v.sb.slotCrc i
    { status := statusQueueDummy
      headerCrc := (v.slots i).headerCrc
      payload := List.replicate 48 0
      nextOffset := 0 }

/-- The queue gets slot `i` as its dummy. -/
def withDummy (g : Geometry) (v : View) (i : ℕ) : View :=
  (v.setSb ((v.sb.setQueueHead (g.ptr i)).setQueueTail (g.ptr i))).setSlot i (v.dummySlot i)

/-- The dummy takes one slot alone.
Source: `ef_queue.c`, `ef_queue_dummy_offset` -/
lemma withDummy_slots_of_ne {j : ℕ} (hj : j ≠ i) : (v.withDummy g i).slots j = v.slots j := by
  unfold View.withDummy
  rw [setSlot_slots, Function.update_of_ne hj]
  rfl

/-- **A new queue**: the dummy, and nothing behind it.
Source: `ef_queue.c`, `ef_queue_dummy_offset` -/
lemma Pool.withDummy (h : v.Pool g l []) (hi : i < g.n) (hst : (v.slots i).status = statusUsed) :
    (v.withDummy g i).Pool g l [] ∧ (v.withDummy g i).QueueIs g i [] := by
  have hself : (v.withDummy g i).slots i = v.dummySlot i := by
    unfold View.withDummy
    rw [setSlot_slots, Function.update_self]
  have hstat : ((v.withDummy g i).slots i).status = statusQueueDummy := by
    rw [hself]
    exact Slot.sealed_status _ _ _
  have hqueue : (v.withDummy g i).QueueIs g i [] := by
    refine ⟨hi, rfl, hstat, ?_, List.nodup_nil, fun j hj => (by cases hj), fun j hj => (by cases hj),
      rfl⟩
    show ((v.withDummy g i).slots i).nextOffset = 0
    rw [hself]
    exact Slot.sealed_nextOffset _ _ _
  refine ⟨h.requeue ⟨rfl, rfl, rfl, rfl, rfl, rfl⟩ rfl rfl (fun j => ?_) (fun j hj => ?_)
    (.inr ⟨i, hqueue⟩), hqueue⟩
  · by_cases hji : j = i
    · rw [hji, hstat, hst]
      simp
    · rw [withDummy_slots_of_ne hji]
  · have hji : j ≠ i := by
      rintro rfl
      rw [hst] at hj
      simp at hj
    rw [withDummy_slots_of_ne hji]

/-- The dummy's checksum is written.
Source: `ef_queue.c`, `ef_queue_dummy_offset` -/
lemma Seals.withDummy (g : Geometry) (v : View) (i : ℕ) : v.Seals g g (v.withDummy g i) :=
  (Seals.setSb ((v.sb.setQueueHead (g.ptr i)).setQueueTail (g.ptr i)) rfl).trans (Seals.sealSlot i _)

/-- Hang slot `n` behind the tail slot `t`. -/
def enqueued (g : Geometry) (v : View) (t n : ℕ) : View :=
  (v.setSb (v.sb.setQueueTail (g.ptr n))).setSlot t
    (Slot.sealed v.sb.slotCrc t { v.slots t with nextOffset := g.ptr n })

/-- Hanging a slot behind the tail changes one link only. -/
lemma enqueued_payload (t n j : ℕ) : ((v.enqueued g t n).slots j).payload = (v.slots j).payload := by
  unfold View.enqueued
  rw [setSlot_slots, Function.update_apply]
  split_ifs with hj
  · rw [Slot.sealed_payload, hj]
  · rfl

/-- A node that is linked in changes no status.
Source: `ef_queue.c`, `ef_queue_enqueue_mpmc` -/
lemma enqueued_status (t n j : ℕ) : ((v.enqueued g t n).slots j).status = (v.slots j).status := by
  unfold View.enqueued
  rw [setSlot_slots, Function.update_apply]
  split_ifs with hj
  · rw [Slot.sealed_status, hj]
  · rfl

/-- The checksum of the node before is written.
Source: `ef_queue.c`, `ef_queue_enqueue_mpmc` -/
lemma Seals.enqueued (g : Geometry) (v : View) (t n : ℕ) : v.Seals g g (v.enqueued g t n) :=
  (Seals.setSb (v.sb.setQueueTail (g.ptr n)) rfl).trans (Seals.sealSlot t _)

/-- The checksum of the dummy is written.
Source: `ef_queue.c`, `ef_queue_dequeue_mpmc` -/
lemma Seals.unlinked (g : Geometry) (v : View) (d i : ℕ) : v.Seals g g (v.unlinked g d i) :=
  (Seals.setSb (v.sb.setQueueTail
    (if v.sb.queueTail = g.ptr i then
      (if (v.slots i).nextOffset ≠ 0 then (v.slots i).nextOffset else g.ptr d)
    else v.sb.queueTail)) rfl).trans (Seals.sealSlot d _)

/-- **A node at the end of the queue.** -/
lemma QueueIs.enqueued (h : v.QueueIs g d q) (hn : n < g.n) (hnew : n ∉ d :: q)
    (hst : (v.slots n).status = statusQueued) (hnext : (v.slots n).nextOffset = 0)
    (hlen : (v.slots n).messageLen ≤ 47) :
    (v.enqueued g (q.getLastD d) n).QueueIs g d (q ++ [n]) := by
  have hdq := h.dummy_not_mem
  have hnt : n ≠ q.getLastD d := fun heq => hnew (heq ▸ List.getLastD_mem_cons)
  have hne : ∀ j, j ≠ q.getLastD d → (v.enqueued g (q.getLastD d) n).slots j = v.slots j := by
    intro j hj
    unfold View.enqueued
    rw [setSlot_slots, Function.update_of_ne hj]
    rfl
  have htail : (v.enqueued g (q.getLastD d) n).slots (q.getLastD d) =
      Slot.sealed v.sb.slotCrc (q.getLastD d)
        { v.slots (q.getLastD d) with nextOffset := g.ptr n } := by
    unfold View.enqueued
    rw [setSlot_slots, Function.update_self]
  have hmsg : ∀ j, ((v.enqueued g (q.getLastD d) n).slots j).messageLen =
      (v.slots j).messageLen := by
    intro j
    unfold Slot.messageLen
    rw [enqueued_payload]
  refine ⟨h.lt, h.head, (enqueued_status _ _ d).trans h.dummy, ?_, ?_, fun j hj => ?_,
    fun j hj => ?_, ?_⟩
  · have hlast : Linked g.idOf (fun j => ((v.enqueued g (q.getLastD d) n).slots j).nextOffset)
        (g.ptr n) [n] 0 := by
      refine ⟨g.idOf_ptr hn, ?_⟩
      show ((v.enqueued g (q.getLastD d) n).slots n).nextOffset = 0
      rw [hne n hnt]
      exact hnext
    rcases List.eq_nil_or_concat q with hq | ⟨q₁, t, hq⟩
    · subst hq
      have hd : ((v.enqueued g d n).slots d).nextOffset = g.ptr n := by
        have ht := htail
        rw [List.getLastD_nil] at ht
        rw [ht, Slot.sealed_nextOffset]
      rw [List.getLastD_nil] at hlast ⊢
      rw [hd]
      exact hlast
    · rw [List.concat_eq_append] at hq
      subst hq
      have hgl : (q₁ ++ [t]).getLastD d = t := by simp
      rw [hgl] at hne htail hlast ⊢
      have hdt : d ≠ t := fun heq => hdq (heq ▸ by simp)
      have hnd := h.nodup
      obtain ⟨-, -, hdisj⟩ := List.nodup_append.mp hnd
      obtain ⟨y, hy, hyt⟩ := linked_append.mp h.linked
      refine linked_append.mpr ⟨g.ptr n, linked_append.mpr ⟨y, ?_, hyt.1, ?_⟩, hlast⟩
      · rw [hne d hdt]
        refine hy.mono fun o a ha ho => ⟨ho, ?_⟩
        have hat : a ≠ t := hdisj a ha t (List.mem_singleton_self t)
        rw [hne a hat]
      · show ((v.enqueued g t n).slots t).nextOffset = g.ptr n
        rw [htail, Slot.sealed_nextOffset]
  · refine List.nodup_append.mpr ⟨h.nodup, List.nodup_singleton n, fun a ha b hb => ?_⟩
    rw [List.mem_singleton.mp hb]
    rintro rfl
    exact hnew (List.mem_cons_of_mem d ha)
  · rw [enqueued_status]
    rcases List.mem_append.mp hj with hj | hj
    · exact h.queued j hj
    · rw [List.mem_singleton.mp hj]
      exact hst
  · rw [hmsg j]
    rcases List.mem_append.mp hj with hj | hj
    · exact h.fits j hj
    · rw [List.mem_singleton.mp hj]
      exact hlen
  · show g.ptr n = g.ptr ((q ++ [n]).getLastD d)
    simp

/-- The free list stays when a node is linked in.
Source: `ef_queue.c`, `ef_queue_enqueue_mpmc` -/
lemma Pool.enqueued (h : v.Pool g l q) {t : ℕ} (ht : (v.slots t).status ≠ statusFree)
    (hq : (v.enqueued g t n).HasQueue g q') : (v.enqueued g t n).Pool g l q' := by
  refine h.requeue ⟨rfl, rfl, rfl, rfl, rfl, rfl⟩ rfl rfl (fun j => by rw [enqueued_status])
    (fun j hj => ?_) hq
  have hjt : j ≠ t := fun heq => ht (heq ▸ hj)
  unfold View.enqueued
  rw [setSlot_slots, Function.update_of_ne hjt]
  rfl

end View

namespace Db

variable {g : Geometry} {db db₁ : Db} {d i n : ℕ} {l q : List ℕ}

/-! ### The queue lock -/

/-- The lock of the queue on a calm handle. -/
lemma efQueueLockAcquire_calm (h : (db.view g).Calm g) :
    db.efQueueLockAcquire.1 = .ok ∧ db.efQueueLockAcquire.2.view g =
      (db.view g).setSb ((db.view g).sb.setQueueLock 1) := by
  rcases efQueueLockAcquire_cases h.schema with ⟨hbusy, -, -⟩ | ⟨-, hok, hview⟩
  · rcases hbusy with hb | hb
    · rw [contended_of_quiet h.quiet] at hb
      cases hb
    · exact absurd h.queueLock hb
  · rw [hview, h.tick_eq]
    exact ⟨hok, rfl⟩

/-- Clearing a clear lock changes nothing. -/
lemma setQueueLock_zero {sb : Superblock} (h : sb.queueLock = 0) : sb.setQueueLock 0 = sb := by
  cases sb
  simp only [Superblock.setQueueLock] at *
  rw [h]

/-- A section under the queue lock that changes nothing. -/
lemma efSbQueueLockRelease_calm (h : (db.view g).Calm g)
    (hview : db₁.view g = (db.view g).setSb ((db.view g).sb.setQueueLock 1)) :
    db₁.efSbQueueLockRelease.view g = db.view g := by
  rw [efSbQueueLockRelease_view (by rw [hview]; exact h.schema), hview]
  show (db.view g).setSb ((db.view g).sb.setQueueLock 0) = _
  rw [setQueueLock_zero h.queueLock, View.setSb_self]

/-! ### The dummy -/

/-- The dummy is looked up in the queue that there is. -/
lemma efQueueDummyOffset_of_queue (h : (db.view g).Bound g) (hq : (db.view g).QueueIs g d q) :
    db.efQueueDummyOffset = (.ok, g.ptr d, db) := by
  obtain ⟨hat, hst⟩ := efSlotAtOffset_dummy h hq
  have hhead : db.sb.queueHead = g.ptr d := hq.head
  have hne : ¬ db.sb.queueHead = 0 := by
    rw [hhead]
    exact g.ptr_ne_zero d
  unfold efQueueDummyOffset
  simp only
  rw [if_neg hne, hat]
  simp only [hst, decide_true, if_true, hhead]

/-- The stores that make a slot the dummy. -/
lemma view_makeDummy (hs : (db.view g).sb.schemaVersion = schemaVersion) (hi : i < g.n) :
    (((((db.setStatus (g.ptr i) statusQueueDummy).setNext (g.ptr i) 0).zero
      (((db.setStatus (g.ptr i) statusQueueDummy).setNext (g.ptr i) 0).efSlotPayloadPtr (g.ptr i))
      ((db.setStatus (g.ptr i) statusQueueDummy).setNext (g.ptr i) 0).efPayloadCapacity)
      ).efSlotHeaderCrcStore i (g.ptr i)).view g =
      (db.view g).setSlot i ((db.view g).dummySlot i) := by
  have hs' : (((db.setStatus (g.ptr i) statusQueueDummy).setNext (g.ptr i)
      0).view g).sb.schemaVersion = schemaVersion := by
    rw [view_setNext hi, view_setStatus hi]
    exact hs
  rw [efSlotPayloadPtr_eq hs', efPayloadCapacity_eq hs', view_efSlotHeaderCrcStore hi,
    view_zero_payload hi, view_setNext hi, view_setStatus hi]
  simp [View.dummySlot]

/-- **The dummy**: the queue has one, or gets one from the free list. -/
lemma efQueueDummyOffset_pool (h : (db.view g).Pool g l q) :
    let r := db.efQueueDummyOffset
    (r.1 ≠ .ok ∧ r.2.2.view g = db.view g) ∨
      (r.1 = .ok ∧ ∃ l' d, (r.2.2.view g).Pool g l' q ∧ (r.2.2.view g).QueueIs g d q ∧
        (db.view g).KeepsUsed (r.2.2.view g) g.n ∧ (db.view g).Seals g g (r.2.2.view g)) := by
  rcases h.queue with ⟨h0, hq⟩ | ⟨d, hq⟩
  swap
  · rw [efQueueDummyOffset_of_queue h.toBound hq]
    exact .inr ⟨rfl, l, d, h, hq, View.KeepsUsed.refl _ _, View.Seals.refl _ _⟩
  subst hq
  have hhead : db.sb.queueHead = 0 := h0
  unfold efQueueDummyOffset efAllocSlot
  simp only [hhead, if_true, Bool.false_eq_true, if_false]
  rcases efAllocSlotEx_pool h true with ⟨herr, hview⟩ | ⟨l', hl, hok, hview⟩
  · left
    generalize db.efAllocSlotEx true = r at herr hview
    obtain ⟨e, i, db₁⟩ := r
    simp only at herr hview
    cases e <;> first | exact absurd rfl herr | exact ⟨herr, hview⟩
  right
  have h' : (db.view g).Pool g ((db.efAllocSlotEx true).2.1 :: l') [] := hl ▸ h
  generalize db.efAllocSlotEx true = r at hok hview h'
  obtain ⟨e, i, db₁⟩ := r
  simp only at hok hview h'
  subst hok
  have hi : i < g.n := h'.lt List.mem_cons_self
  have hpool₁ : (db₁.view g).Pool g l' [] := by
    rw [hview]
    exact h'.popSlot
  have hused₁ : ((db₁.view g).slots i).status = statusUsed := by
    rw [hview, View.popSlot_status, if_pos rfl]
  have hkept₁ : (db.view g).KeepsUsed (db₁.view g) g.n := by
    rw [hview]
    exact popSlot_keepsUsed h' g.n
  have hseals₁ : (db.view g).Seals g g (db₁.view g) := by
    rw [hview]
    exact View.Seals.popSlot true i
  simp only
  rw [efPeekSlot_of_lt hpool₁.toBound hi]
  simp only
  have hpool₀ : ((db₁.setError .ok).view g).Pool g l' [] := hpool₁
  rw [efSlotToOffset_of_lt hpool₀.toBound hi]
  have hmade := view_makeDummy hpool₀.schema hi
  generalize hdb₂ : ((((db₁.setError .ok).setStatus (g.ptr i) statusQueueDummy).setNext (g.ptr i)
    0).zero ((((db₁.setError .ok).setStatus (g.ptr i) statusQueueDummy).setNext (g.ptr i)
    0).efSlotPayloadPtr (g.ptr i)) (((db₁.setError .ok).setStatus (g.ptr i)
    statusQueueDummy).setNext (g.ptr i) 0).efPayloadCapacity).efSlotHeaderCrcStore i
    (g.ptr i) = db₂ at hmade ⊢
  have hhead₂ : db₂.sb.queueHead = 0 := by
    have hsb : (db₂.view g).sb.queueHead = (db.view g).sb.queueHead := by
      rw [hmade, view_setError, hview]
      rfl
    exact hsb.trans h0
  rw [if_pos hhead₂]
  simp only
  refine ⟨trivial, l', i, ?_⟩
  have hview₂ : ((db₂.setQueueHead (g.ptr i)).setQueueTail (g.ptr i)).efDbMarkMetaDirty.view g =
      (db₁.view g).withDummy g i := by
    have hptr : g.ptr i % u64 = g.ptr i := Nat.mod_eq_of_lt (g.ptr_lt_u64 hi)
    rw [view_efDbMarkMetaDirty, view_setQueueTail, view_setQueueHead, hmade, hptr]
    rfl
  rw [hview₂]
  obtain ⟨hpool, hqueue⟩ := hpool₁.withDummy hi hused₁
  refine ⟨hpool, hqueue, fun j hj hst => ?_, hseals₁.trans (View.Seals.withDummy g _ i)⟩
  have hji : j ≠ i := by
    rintro rfl
    exact hst (h'.free List.mem_cons_self)
  rw [View.withDummy_slots_of_ne hji]
  exact hkept₁ j hj hst

/-! ### Enqueue -/

/-- The stores that make a slot a queue node. -/
lemma view_makeNode (db : Db) (hn : n < g.n) :
    (((db.setNext (g.ptr n) 0).setStatus (g.ptr n) statusQueued).efSlotHeaderCrcStore n
      (g.ptr n)).view g = (db.view g).setSlot n (Slot.sealed (db.view g).sb.slotCrc n
        { (db.view g).slots n with status := statusQueued, nextOffset := 0 }) := by
  rw [view_efSlotHeaderCrcStore hn, view_setStatus hn, view_setNext hn]
  simp

/-- The stores under the lock that hang a node behind the tail. -/
lemma view_hangNode {t : ℕ} (h : (db.view g).Calm g) (ht : t < g.n) (hn : n < g.n)
    (hview : db₁.view g = (db.view g).setSb ((db.view g).sb.setQueueLock 1)) :
    (((((db₁.setNext (g.ptr t) (g.ptr n)).efSlotHeaderCrcStore t (g.ptr t)).setQueueTail
      (g.ptr n)).efSbQueueLockRelease).efDbMarkMetaDirty).view g = (db.view g).enqueued g t n := by
  have hptr : g.ptr n % u64 = g.ptr n := Nat.mod_eq_of_lt (g.ptr_lt_u64 hn)
  have hstores : ((((db₁.setNext (g.ptr t) (g.ptr n)).efSlotHeaderCrcStore t (g.ptr t)).setQueueTail
      (g.ptr n)).view g) = ((db.view g).setSb (((db.view g).sb.setQueueLock 1).setQueueTail
        (g.ptr n))).setSlot t (Slot.sealed (db.view g).sb.slotCrc t
          { (db.view g).slots t with nextOffset := g.ptr n }) := by
    rw [view_setQueueTail, view_efSlotHeaderCrcStore ht, view_setNext ht, hview, hptr]
    simp
    rfl
  rw [view_efDbMarkMetaDirty, efSbQueueLockRelease_view (by rw [hstores]; exact h.schema), hstores]
  show (((db.view g).setSb (((db.view g).sb.setQueueLock 0).setQueueTail (g.ptr n))).setSlot t _) = _
  rw [setQueueLock_zero h.queueLock]
  rfl

/-- The slot that is pushed becomes a node; the queue is as it was, and the node is not in it. -/
lemma makeNode_pool (h : (db.view g).Pool g l q) (hq : (db.view g).QueueIs g d q) (hn : n < g.n)
    (hst : ((db.view g).slots n).status = statusUsed) :
    let db₂ := ((db.setNext (g.ptr n) 0).setStatus (g.ptr n) statusQueued).efSlotHeaderCrcStore n
        (g.ptr n)
    (db₂.view g).Pool g l q ∧ (db₂.view g).QueueIs g d q ∧ n ∉ d :: q ∧
      ((db₂.view g).slots n).status = statusQueued ∧ ((db₂.view g).slots n).nextOffset = 0 ∧
      (∀ j, ((db₂.view g).slots j).payload = ((db.view g).slots j).payload) ∧
      ∀ D, (db.view g).SealedBut g (insert n D) → (db₂.view g).SealedBut g D := by
  have hoff := off_of_status h (.inl hst)
  have hnew : n ∉ d :: q := by
    intro hm
    rcases List.mem_cons.mp hm with rfl | hm
    · exact hoff.2 hq.head
    · exact hoff.1 hm
  have hview := view_makeNode db hn
  simp only
  generalize ((db.setNext (g.ptr n) 0).setStatus (g.ptr n) statusQueued).efSlotHeaderCrcStore n
    (g.ptr n) = db₂ at hview ⊢
  have hne : ∀ j, j ≠ n → (db₂.view g).slots j = (db.view g).slots j := by
    intro j hj
    rw [hview, View.setSlot_slots, Function.update_of_ne hj]
  have hself : (db₂.view g).slots n = Slot.sealed (db.view g).sb.slotCrc n
      { (db.view g).slots n with status := statusQueued, nextOffset := 0 } := by
    rw [hview, View.setSlot_slots, Function.update_self]
  refine ⟨?_, ?_, hnew, by rw [hself, Slot.sealed_status], by rw [hself, Slot.sealed_nextOffset],
    fun j => ?_, fun D hD => ?_⟩
  · rw [hview]
    exact h.setSlot (by rw [hst]; simp) (by rw [Slot.sealed_status]; simp) hoff
  · refine hq.congr ?_ ?_ fun j hj => hne j fun heq => hnew (heq ▸ hj)
    · rw [hview]
      rfl
    · rw [hview]
      rfl
  · by_cases hjn : j = n
    · rw [hjn, hself, Slot.sealed_payload]
    · rw [hne j hjn]
  · rw [hview]
    exact hD.seal _

/-- The node is hung behind the tail, under the lock. -/
lemma hangNode_pool (h : (db.view g).Pool g l q) (hq : (db.view g).QueueIs g d q) (hn : n < g.n)
    (hnew : n ∉ d :: q) (hst : ((db.view g).slots n).status = statusQueued)
    (hnext : ((db.view g).slots n).nextOffset = 0) (hlen : ((db.view g).slots n).messageLen ≤ 47)
    (hview : db₁.view g = (db.view g).setSb ((db.view g).sb.setQueueLock 1)) :
    let t := q.getLastD d
    let db₂ := ((((db₁.setNext (g.ptr t) (g.ptr n)).efSlotHeaderCrcStore t (g.ptr t)).setQueueTail
      (g.ptr n)).efSbQueueLockRelease).efDbMarkMetaDirty
    t < g.n ∧ db₁.sb.queueTail = g.ptr t ∧ (db₂.view g).Pool g l (q ++ [n]) ∧
      (∀ j, ((db₂.view g).slots j).payload = ((db.view g).slots j).payload) ∧
      (db.view g).Seals g g (db₂.view g) := by
  have hmem := List.getLastD_mem_cons (a := d) (l := q)
  have ht : q.getLastD d < g.n := by
    rcases List.mem_cons.mp hmem with hd | hm
    · rw [hd]
      exact hq.lt
    · exact hq.lt_of_mem hm
  have htail : db₁.sb.queueTail = g.ptr (q.getLastD d) := by
    have hsb : (db₁.view g).sb.queueTail = (db.view g).sb.queueTail := by rw [hview]; rfl
    exact hsb.trans hq.tail
  have hview₂ := view_hangNode h.toCalm ht hn hview
  simp only
  generalize (((((db₁.setNext (g.ptr (q.getLastD d)) (g.ptr n)).efSlotHeaderCrcStore (q.getLastD d)
    (g.ptr (q.getLastD d))).setQueueTail (g.ptr n)).efSbQueueLockRelease).efDbMarkMetaDirty) = db₂
    at hview₂ ⊢
  have htfree : ((db.view g).slots (q.getLastD d)).status ≠ statusFree := by
    rcases List.mem_cons.mp hmem with hd | hm
    · rw [hd, hq.dummy]
      simp
    · rw [hq.queued _ hm]
      simp
  rw [hview₂]
  exact ⟨ht, htail, h.enqueued htfree (.inr ⟨d, hq.enqueued hn hnew hst hnext hlen⟩),
    View.enqueued_payload _ _, View.Seals.enqueued g _ _ n⟩

/-- **Enqueue**: the node is hung behind the tail, or the queue has no dummy and gets none. -/
lemma efQueueEnqueueMpmc_pool (h : (db.view g).Pool g l q) (hn : n < g.n)
    (hst : ((db.view g).slots n).status = statusUsed)
    (hlen : ((db.view g).slots n).messageLen ≤ 47) :
    let r := db.efQueueEnqueueMpmc (g.ptr n) n
    (r.1 ≠ .ok ∧ r.2.view g = db.view g) ∨
      (r.1 = .ok ∧ (∃ l', (r.2.view g).Pool g l' (q ++ [n])) ∧
        (∀ j ∈ q ++ [n], ((r.2.view g).slots j).message = ((db.view g).slots j).message) ∧
        ∀ D, (db.view g).SealedBut g (insert n D) → (r.2.view g).SealedBut g D) := by
  unfold efQueueEnqueueMpmc
  rcases efQueueDummyOffset_pool h with ⟨herr, hview⟩ |
      ⟨hok, l₁, d, hpool₁, hqueue₁, hkept₁, hseals₁⟩
  · left
    generalize db.efQueueDummyOffset = r at herr hview
    obtain ⟨e, o, db₁⟩ := r
    simp only at herr hview
    cases e <;> first | exact absurd rfl herr | exact ⟨herr, hview⟩
  right
  generalize db.efQueueDummyOffset = r at hok hpool₁ hqueue₁ hkept₁ hseals₁
  obtain ⟨e, o, db₁⟩ := r
  simp only at hok hpool₁ hqueue₁ hkept₁ hseals₁
  subst hok
  have hslot₁ : (db₁.view g).slots n = (db.view g).slots n := hkept₁ n hn (by rw [hst]; simp)
  simp only
  rw [efSlotAtOffset_eq hpool₁.toBound, g.idOf_ptr hn]
  simp only
  rw [slotPtr_eq hpool₁.cap]
  -- the slot becomes a node
  obtain ⟨hpool₂, hqueue₂, hnew, hst₂, hnext₂, hpay₂, hseals₂⟩ :=
    makeNode_pool hpool₁ hqueue₁ hn (by rw [hslot₁, hst])
  generalize ((db₁.setNext (g.ptr n) 0).setStatus (g.ptr n) statusQueued).efSlotHeaderCrcStore n
    (g.ptr n) = db₂ at hpool₂ hqueue₂ hst₂ hnext₂ hpay₂ hseals₂ ⊢
  have hlen₂ : ((db₂.view g).slots n).messageLen ≤ 47 := by
    unfold Slot.messageLen
    rw [hpay₂, hslot₁]
    exact hlen
  -- it is hung behind the tail
  obtain ⟨hlok, hlview⟩ := efQueueLockAcquire_calm hpool₂.toCalm
  generalize db₂.efQueueLockAcquire = r at hlok hlview
  obtain ⟨e, db₃⟩ := r
  simp only at hlok hlview
  subst hlok
  obtain ⟨ht, htail, hpool₄, hpay₄, hseals₄⟩ :=
    hangNode_pool hpool₂ hqueue₂ hn hnew hst₂ hnext₂ hlen₂ hlview
  have hbound₃ : (db₃.view g).Bound g := by
    rw [hlview]
    exact hpool₂.toBound.congr rfl rfl rfl rfl
  simp only
  rw [htail, efSlotAtOffset_eq hbound₃, g.idOf_ptr ht]
  simp only
  rw [slotPtr_eq hbound₃.cap]
  generalize (((((db₃.setNext (g.ptr (q.getLastD d)) (g.ptr n)).efSlotHeaderCrcStore (q.getLastD d)
    (g.ptr (q.getLastD d))).setQueueTail (g.ptr n)).efSbQueueLockRelease).efDbMarkMetaDirty) = db₄
    at hpool₄ hpay₄ hseals₄ ⊢
  have hidle : db₄.txnActive = false := hpool₄.idle
  simp only [hidle, Bool.false_eq_true, if_false]
  refine ⟨trivial, ⟨l₁, hpool₄⟩, fun j hj => ?_, fun D hD => hseals₄ D (hseals₂ D (hseals₁ _ hD))⟩
  -- nothing was written to a payload
  have hpay : ((db₄.view g).slots j).payload = ((db.view g).slots j).payload := by
    rw [hpay₄, hpay₂]
    rcases List.mem_append.mp hj with hj | hj
    · obtain ⟨hjq, hjn⟩ := status_of_mem_queue h hj
      rw [hkept₁ j hjn (by rw [hjq]; simp)]
    · rw [List.mem_singleton.mp hj, hslot₁]
  show ((db₄.view g).slots j).message = _
  unfold Slot.message Slot.messageLen
  rw [hpay]

/-! ### Push -/

/-- A slot whose payload starts with a length and so many bytes carries these bytes. -/
lemma message_of_payload {s : Slot} {data rest : List UInt8} (hlen : data.length ≤ 47)
    (hs : s.payload = UInt8.ofNat data.length :: data ++ rest) :
    s.messageLen = data.length ∧ s.message = data := by
  have hmod : data.length % 256 = data.length := Nat.mod_eq_of_lt (by omega)
  have hl : s.messageLen = data.length := by
    unfold Slot.messageLen
    rw [hs]
    simpa using hmod
  refine ⟨hl, ?_⟩
  unfold Slot.message
  rw [hl, hs]
  simp

/-- The outcome of a push on a pool of `g` with the queue `q`, in terms of the messages: the message
is at the end, or the messages are what they were. -/
structure Pushed (g : Geometry) (q : List ℕ) (db : Db) (data : List UInt8) (r : Err × Db)
    (g' : Geometry) (l' q' : List ℕ) : Prop where
  le : g.n ≤ g'.n
  le_succ : g'.n ≤ g.n + 1
  pool : (r.2.view g').Pool g' l' q'
  messages : (q'.map fun j => ((r.2.view g').slots j).message) =
    (q.map fun j => ((db.view g).slots j).message) ++ if r.1 = .ok then [data] else []

/-- A push that fails has pushed nothing.
Source: `ef_queue.c`, `ef_queue_push` -/
lemma pushed_of_sealed {data : List UInt8} {e : Err} (herr : e ≠ .ok) (h : PoolSealed g q 1 db db₁) :
    ∃ g' l' q', Pushed g q db data (e, db₁) g' l' q' ∧ (db.view g).Seals g g' (db₁.view g') := by
  obtain ⟨g', l', hle, hle', hpool, hq, hseals⟩ := h
  refine ⟨g', l', q, ⟨hle, hle', hpool, ?_⟩, hseals⟩
  rw [if_neg herr, List.append_nil]
  exact List.map_congr_left fun j hj => by rw [hq j hj]

/-- **Push**: the message is appended to the queue, or the queue stays as it was. -/
lemma efQueuePush_pool (h : (db.view g).Pool g l q) (hroom : roomFor (g.n + 1))
    (hgrow : (db.view g).Dry → (db.view g).core.Unfailing) (data : List UInt8) :
    ∃ g' l' q', Pushed g q db data (db.efQueuePush data) g' l' q' ∧
      (db.view g).Seals g g' ((db.efQueuePush data).2.view g') := by
  have hcap : db.efPayloadCapacity = 48 := efPayloadCapacity_eq h.schema
  unfold efQueuePush
  rw [efDbRequireWrite_eq h.writable]
  simp only
  by_cases hlen : db.efPayloadCapacity < data.length + 1
  · rw [if_pos hlen]
    exact pushed_of_sealed (fun h0 => (by cases h0)) (poolSealed_of_view h rfl 1)
  rw [if_neg hlen]
  have hlen' : data.length ≤ 47 := by omega
  obtain ⟨g₁, l₁, halloc, hseals₁⟩ := efAllocEx_allocated h hroom hgrow false
  generalize db.efAllocEx false = r at halloc hseals₁
  obtain ⟨e, i, db₁⟩ := r
  simp only at hseals₁
  have hq₁ : ∀ j ∈ q, (db₁.view g₁).slots j = (db.view g).slots j := by
    intro j hj
    obtain ⟨hjq, hjn⟩ := status_of_mem_queue h hj
    exact halloc.kept j hjn (by rw [hjq]; simp)
  cases e with
  | ok =>
      have hi : i < g₁.n := halloc.lt rfl
      have hused : ((db₁.view g₁).slots i).status = statusUsed := halloc.used rfl
      have hpool₁ : ((db₁.setError .ok).view g₁).Pool g₁ l₁ q := halloc.pool
      simp only
      rw [efPeekSlot_of_lt halloc.pool.toBound hi]
      simp only
      rw [efSlotPayloadPtr_eq hpool₁.schema]
      -- the message is written
      have hcopy := view_copyIn_payload (db₁.setError .ok) hi 0 (UInt8.ofNat data.length :: data)
        (by simp only [List.length_cons]; omega)
      simp only [Nat.add_zero, Nat.zero_add, List.take_zero, List.nil_append] at hcopy
      generalize (db₁.setError .ok).copyIn (g₁.ptr i + 8) (UInt8.ofNat data.length :: data) = db₂
        at hcopy ⊢
      have hself : (db₂.view g₁).slots i = { (db₁.view g₁).slots i with
          payload := UInt8.ofNat data.length :: data ++ ((db₁.view g₁).slots i).payload.drop
            (UInt8.ofNat data.length :: data).length } := by
        rw [hcopy, View.setSlot_slots, Function.update_self]
        rfl
      have hst₂ : ((db₂.view g₁).slots i).status = statusUsed := by rw [hself, hused]
      obtain ⟨hml, hmsg⟩ := message_of_payload (s := (db₂.view g₁).slots i) hlen' (by rw [hself])
      have hoff := off_of_status hpool₁ (.inl hused)
      have hpool₂ : (db₂.view g₁).Pool g₁ l₁ q := by
        rw [hcopy]
        refine hpool₁.setSlot (i := i) ?_ ?_ hoff
        · show ((db₁.view g₁).slots i).status ≠ _
          rw [hused]
          simp
        · show ((db₁.view g₁).slots i).status ≠ _
          rw [hused]
          simp
      have hq₂ : ∀ j ∈ q, (db₂.view g₁).slots j = (db.view g).slots j := by
        intro j hj
        have hji : j ≠ i := fun heq => hoff.1 (heq ▸ hj)
        rw [hcopy, View.setSlot_slots, Function.update_of_ne hji]
        exact hq₁ j hj
      have hbut₂ : (db.view g).SealsBut g i g₁ (db₂.view g₁) := by
        rw [hcopy]
        exact (hseals₁.but i).write _
      rw [efSlotToOffset_of_lt hpool₂.toBound hi]
      rcases efQueueEnqueueMpmc_pool hpool₂ hi hst₂ (by omega) with ⟨herr, hview⟩ |
          ⟨hok, ⟨l₂, hpool⟩, hkept, hsealed⟩
      · -- no dummy was to be had: the slot goes back
        generalize db₂.efQueueEnqueueMpmc (g₁.ptr i) i = r at herr hview
        obtain ⟨e, db₃⟩ := r
        simp only at herr hview
        have hpool₃ : (db₃.view g₁).Pool g₁ l₁ q := by rwa [hview]
        have hst₃ : ((db₃.view g₁).slots i).status = statusUsed := by rw [hview, hst₂]
        have hoff₃ := off_of_status hpool₃ (.inl hst₃)
        obtain ⟨-, hpool⟩ := efReturnSlotToPool_pool hpool₃ hi (by rw [hst₃]; simp) hoff₃
        have hview₄ := (efReturnSlotToPool_calm hpool₃.toCalm hi).2
        rw [hview] at hview₄
        have hback : PoolSealed g q 1 db (db₃.efReturnSlotToPool i (g₁.ptr i)).2 := by
          refine ⟨g₁, i :: l₁, halloc.le, halloc.le_succ, hpool, fun j hj => ?_, ?_⟩
          · have hji : j ≠ i := fun heq => hoff₃.1 (heq ▸ hj)
            rw [hview₄, View.pushSlot_slots_of_ne hji, hq₂ j hj]
          · rw [hview₄]
            exact hbut₂.pushSlot
        cases e <;> first | exact absurd rfl herr | exact pushed_of_sealed herr hback
      · generalize db₂.efQueueEnqueueMpmc (g₁.ptr i) i = r at hok hpool hkept hsealed
        obtain ⟨e, db₃⟩ := r
        simp only at hok hpool hkept hsealed
        subst hok
        refine ⟨g₁, l₂, q ++ [i], ⟨halloc.le, halloc.le_succ, hpool, ?_⟩,
          fun D hD => hsealed D (hbut₂ D hD)⟩
        rw [if_pos rfl, List.map_append, List.map_singleton]
        have hlast := hkept i (List.mem_append_right q (List.mem_singleton_self i))
        refine congrArg₂ (· ++ ·) (List.map_congr_left fun j hj => ?_) ?_
        · rw [← hq₂ j hj]
          exact hkept j (List.mem_append_left _ hj)
        · rw [← hmsg]
          exact congrArg (fun m => [m]) hlast
  | _ =>
      exact pushed_of_sealed (fun h0 => (by cases h0))
        ⟨g₁, l₁, halloc.le, halloc.le_succ, halloc.pool, hq₁, hseals₁⟩

/-! ### Pop -/

/-- The dummy as a section under the queue lock finds it. -/
lemma queueDummy_locked (h : (db.view g).Bound g) (hq : (db.view g).QueueIs g d q)
    (hview : db₁.view g = (db.view g).setSb ((db.view g).sb.setQueueLock 1)) :
    (db₁.efSlotAtOffset (g.ptr d)).filter (fun i => (db₁.slot i).status = statusQueueDummy) =
        some d ∧ db₁.slot d = (db.view g).slots d := by
  have h₁ : (db₁.view g).Bound g := by
    rw [hview]
    exact h.congr rfl rfl rfl rfl
  have hslot : db₁.slot d = (db.view g).slots d := by
    rw [slot_eq h₁.cap hq.lt, hview]
    rfl
  refine ⟨?_, hslot⟩
  rw [efSlotAtOffset_eq h₁, g.idOf_ptr hq.lt]
  refine Option.filter_some_pos (decide_eq_true ?_)
  rw [hslot]
  exact hq.dummy

/-- A pop from a queue without messages. -/
lemma efQueueDequeueMpmc_empty (h : (db.view g).Pool g l []) (bufCap : ℕ) :
    (db.efQueueDequeueMpmc bufCap).1 = .queueEmpty ∧
      (db.efQueueDequeueMpmc bufCap).2.2.view g = db.view g := by
  unfold efQueueDequeueMpmc
  simp only
  rcases h.queue with ⟨h0, -⟩ | ⟨d, hq⟩
  · rw [if_pos (show db.sb.queueHead = 0 from h0)]
    exact ⟨rfl, rfl⟩
  have hhead : db.sb.queueHead = g.ptr d := hq.head
  rw [hhead, if_neg (g.ptr_ne_zero d)]
  obtain ⟨hok, hview⟩ := efQueueLockAcquire_calm h.toCalm
  generalize db.efQueueLockAcquire = r at hok hview
  obtain ⟨e, db₁⟩ := r
  simp only at hok hview
  subst hok
  obtain ⟨hdummy, hslot⟩ := queueDummy_locked h.toBound hq hview
  have hnext : (db₁.slotAt (db₁.slotPtr d)).nextOffset = 0 := by
    have hs : db₁.slotAt (db₁.slotPtr d) = (db.view g).slots d := hslot
    rw [hs]
    exact hq.linked
  simp only
  rw [hdummy]
  simp only
  rw [if_pos hnext]
  refine ⟨rfl, ?_⟩
  rw [view_setError]
  exact efSbQueueLockRelease_calm h.toCalm hview

/-- The view after the first node has left the queue and its slot has gone back, with the queue lock
taken and released around it. -/
lemma popped_view {v : View} (hlock : v.sb.queueLock = 0) (d i : ℕ) (seg : Segment) :
    let w := (((v.setSb (v.sb.setQueueLock 1)).unlinked g d i).setSeg seg).pushSlot g i
    w.setSb (w.sb.setQueueLock 0) = ((v.unlinked g d i).pushSlot g i).setSeg seg := by
  have hsb := setQueueLock_zero hlock
  obtain ⟨core, sb, slots, seg'⟩ := v
  obtain ⟨_, _, _, _, _, _, _, _, _, _, _, ql, _, _, _, _⟩ := sb
  have hql : ql = 0 := hlock
  subst hql
  rfl

/-- The queue without its first node. -/
lemma unlinked_pool {v : View} (h : v.Pool g l (i :: q)) (hq : v.QueueIs g d (i :: q)) :
    (v.unlinked g d i).Pool g l q := by
  have hd : (v.slots d).status ≠ statusFree := by rw [hq.dummy]; simp
  refine h.requeue ⟨rfl, rfl, rfl, rfl, rfl, rfl⟩ rfl rfl (fun j => ?_) (fun j hj => ?_)
    (.inr ⟨d, hq.unlinked⟩)
  · by_cases hjd : j = d
    · rw [hjd, View.unlinked_slots_self, Slot.sealed_status]
    · rw [View.unlinked_slots_of_ne hjd]
  · have hjd : j ≠ d := fun heq => hd (heq ▸ hj)
    rw [View.unlinked_slots_of_ne hjd]

/-- **Pop**: without messages the queue is empty; else the first message is delivered, if the buffer
takes it, and its slot goes back to the pool. -/
lemma efQueuePop_pool (h : (db.view g).Pool g l q) (bufCap : ℕ) :
    let r := db.efQueuePop bufCap
    (q = [] ∧ r.1 = .queueEmpty ∧ r.2.2.view g = db.view g) ∨
      (q ≠ [] ∧ bufCap < 48 ∧ r.1 = .payloadLen ∧ r.2.2.view g = db.view g) ∨
      ∃ i q', q = i :: q' ∧ r.1 = .ok ∧ r.2.1 = ((db.view g).slots i).message ∧
        (r.2.2.view g).Pool g (i :: l) q' ∧
        (∀ j ∈ q', (r.2.2.view g).slots j = (db.view g).slots j) ∧
        (db.view g).Seals g g (r.2.2.view g) := by
  unfold efQueuePop
  rw [efDbRequireWrite_eq h.writable]
  simp only
  cases q with
  | nil =>
      obtain ⟨herr, hview⟩ := efQueueDequeueMpmc_empty h bufCap
      exact .inl ⟨rfl, herr, hview⟩
  | cons i q =>
      right
      obtain ⟨d, hq⟩ : ∃ d, (db.view g).QueueIs g d (i :: q) := by
        rcases h.queue with ⟨-, hnil⟩ | hq
        · cases hnil
        · exact hq
      have hi : i < g.n := hq.lt_of_mem List.mem_cons_self
      obtain ⟨hok, hview⟩ := efQueueLockAcquire_calm h.toCalm
      have hlock : db.efQueueLockAcquire = (.ok, db.efQueueLockAcquire.2) := by rw [← hok]
      generalize db.efQueueLockAcquire.2 = db₁ at hlock hview
      have hview' : db₁.view g = (db.view g).tick.setSb ((db.view g).sb.setQueueLock 1) := by
        rw [h.toCalm.tick_eq]
        exact hview
      rw [efQueueDequeueMpmc_cons h.toBound h.schema hq hlock hview' bufCap]
      have hfit := hq.fits i List.mem_cons_self
      by_cases hsmall : bufCap < ((db.view g).slots i).messageLen + 1
      · rw [if_pos hsmall]
        refine .inl ⟨List.cons_ne_nil i q, by omega, rfl, ?_⟩
        rw [view_setError]
        exact efSbQueueLockRelease_calm h.toCalm hview
      rw [if_neg hsmall]
      right
      -- the node leaves the queue
      have hidle : ¬ db₁.txnActive = true := by
        have hc : (db₁.view g).core = (db.view g).core := by rw [hview]; rfl
        have hact : db₁.txnActive = false := (congrArg Core.txnActive hc).trans h.idle
        rw [hact]
        exact Bool.false_ne_true
      obtain ⟨seg, hun⟩ := unlinkFirst_view (fun hact => absurd hact hidle) hq.lt hi
      generalize db₁.unlinkFirst (g.ptr d) (g.ptr i) d (g.ptr d) (g.ptr i) = db₂ at hun
      rw [hview] at hun
      -- its slot goes back
      have hbound₂ : (db₂.view g).Bound g := by
        rw [hun]
        exact h.toBound.congr rfl rfl rfl rfl
      have hschema₂ : (db₂.view g).sb.schemaVersion = schemaVersion := by
        rw [hun]
        exact h.schema
      have hquiet₂ : (db₂.view g).core.contention = [] := by
        rw [hun]
        exact h.quiet
      have hback : (db₂.efReturnSlotToPool i (g.ptr i)).1 = .ok := by
        refine (efReturnSlotToPool_fst (g := g) hbound₂.writable i (g.ptr i)).1.trans ?_
        refine (efIndexWriteBegin_ok_iff_of_v5 hschema₂).mpr fun hbusy => ?_
        rcases hbusy with hb | hb
        · rw [contended_of_quiet hquiet₂] at hb
          cases hb
        · refine hb ?_
          have hx : (db₂.view g).sb.indexWriteLock = (db.view g).sb.indexWriteLock := by rw [hun]; rfl
          exact hx.trans h.indexLock
      have hstays := not_removalMoves_of_small hbound₂.cap (by rw [h.noIndex]; norm_num) i
      have hview₃ : (db₂.efReturnSlotToPool i (g.ptr i)).2.view g = (db₂.view g).pushSlot g i :=
        ((efReturnSlotToPool_spec hbound₂ hi hstays hback).still).eq hquiet₂
      generalize db₂.efReturnSlotToPool i (g.ptr i) = r at hback hview₃
      obtain ⟨e, db₃⟩ := r
      simp only at hback hview₃
      subst hback
      have hfinal : ((db₃.efSbQueueLockRelease.efDbMarkMetaDirty).setError .ok).view g =
          (((db.view g).unlinked g d i).pushSlot g i).setSeg seg := by
        rw [view_setError, view_efDbMarkMetaDirty, efSbQueueLockRelease_view (by
          rw [hview₃]
          exact hschema₂), hview₃, hun]
        exact popped_view h.queueLock d i seg
      have hpool := unlinked_pool h hq
      have hst : (((db.view g).unlinked g d i).slots i).status ≠ statusFree := by
        have hid : i ≠ d := fun heq => hq.dummy_not_mem (heq ▸ List.mem_cons_self)
        rw [View.unlinked_slots_of_ne hid, hq.queued i List.mem_cons_self]
        simp
      have hoff : ((db.view g).unlinked g d i).OffQueue g q i := by
        refine ⟨(List.nodup_cons.mp hq.nodup).1, ?_⟩
        show (db.view g).sb.queueHead ≠ g.ptr i
        rw [hq.head]
        intro heq
        exact hq.dummy_not_mem (g.ptr_inj heq ▸ List.mem_cons_self)
      refine ⟨i, q, rfl, rfl, rfl, ?_, fun j hj => ?_, ?_⟩
      · simp only
        rw [hfinal]
        exact (hpool.pushSlot hi hst hoff).setSeg seg
      · have hji : j ≠ i := fun heq => hoff.1 (heq ▸ hj)
        have hjd : j ≠ d := fun heq => hq.dummy_not_mem (heq ▸ List.mem_cons_of_mem i hj)
        simp only
        rw [hfinal, View.setSeg_slots, View.pushSlot_slots_of_ne hji, View.unlinked_slots_of_ne hjd]
      · simp only
        rw [hfinal]
        exact (((View.Seals.unlinked g _ d i).but i).pushSlot).trans (View.Seals.setSeg seg)

/-! ### The tests for an empty queue -/

/-- **`ef_queue_empty`** holds exactly if the queue has no node. -/
lemma efQueueEmpty_iff (h : (db.view g).Pool g l q) : db.efQueueEmpty.1 = true ↔ q = [] := by
  unfold efQueueEmpty
  simp only
  rcases h.queue with ⟨h0, hq⟩ | ⟨d, hq⟩
  · rw [if_pos (show db.sb.queueHead = 0 from h0)]
    simp [hq]
  have hhead : db.sb.queueHead = g.ptr d := hq.head
  have hlt := g.ptr_lt hq.lt
  have hfile : g.undoBase ≤ db.fileSize := h.inFile
  have hptr : db.efOffsetToPtr (g.ptr d) = (some (g.ptr d), db.setError .ok) := by
    unfold efOffsetToPtr
    exact if_neg (not_or.mpr ⟨g.ptr_ne_zero d, by omega⟩)
  have hslot : (db.setError .ok).slotAt (g.ptr d) = (db.view g).slots d := slotAt_eq db hq.lt
  rw [hhead, if_neg (g.ptr_ne_zero d), hptr]
  simp only [hslot]
  rw [if_neg (not_not.mpr hq.dummy)]
  simp only [decide_eq_true_eq]
  cases q with
  | nil =>
      have hnext : ((db.view g).slots d).nextOffset = 0 := hq.linked
      simp [hnext]
  | cons i q =>
      have hnext : ((db.view g).slots d).nextOffset = g.ptr i :=
        ((g.idOf_eq_some_iff _ _).mp hq.linked.1).2
      simp [hnext, g.ptr_ne_zero i]

/-- **`ef_queue_drained`** holds exactly if the queue has no node. -/
lemma efQueueDrained_iff (h : (db.view g).Pool g l q) : db.efQueueDrained.1 = true ↔ q = [] := by
  unfold efQueueDrained
  simp only
  rcases h.queue with ⟨h0, hq⟩ | ⟨d, hq⟩
  · rw [if_pos (show db.sb.queueHead = 0 from h0)]
    simp [hq]
  have hhead : db.sb.queueHead = g.ptr d := hq.head
  rw [hhead, if_neg (g.ptr_ne_zero d)]
  obtain ⟨hok, hview⟩ := efQueueLockAcquire_calm h.toCalm
  generalize db.efQueueLockAcquire = r at hok hview
  obtain ⟨e, db₁⟩ := r
  simp only at hok hview
  subst hok
  obtain ⟨hdummy, hslot⟩ := queueDummy_locked h.toBound hq hview
  simp only
  rw [hdummy]
  simp only [hslot, decide_eq_true_eq]
  cases q with
  | nil =>
      have hnext : ((db.view g).slots d).nextOffset = 0 := hq.linked
      simp [hnext]
  | cons i q =>
      have hnext : ((db.view g).slots d).nextOffset = g.ptr i :=
        ((g.idOf_eq_some_iff _ _).mp hq.linked.1).2
      simp [hnext, g.ptr_ne_zero i]

end Db

end Endfields.Model
