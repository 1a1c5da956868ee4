import Endfields.Spec.Release

/-!
# The message queue on the view

The queue as a linked list of `QUEUED` slots behind the dummy, and what a pop does to it.

* `Db.pending`: the messages, read along the links; `View.HasQueue g v q`: the queue is well formed
  and its nodes are `q` (`pending_eq`).
* `efQueueLockAcquire_cases`, `efIndexRemoveBySlot_ok_iff`: when the two locks of a pop are
  obtained.
* **The pop** (`efQueueDequeueMpmc_cases`): it fails and leaves the queue alone, or unlinks the
  first node and gives it back to the pool.
-/

namespace Endfields.Model

open Endfields.Lib

namespace Slot

/-- The length that the first payload byte gives. -/
def messageLen (s : Slot) : ℕ := (s.payload.headD 0).toNat

/-- The message that a queue slot carries. -/
def message (s : Slot) : List UInt8 := (s.payload.drop 1).take s.messageLen

variable (crcOn : Bool) (id : ℕ) (s : Slot)

end Slot

namespace Db

/-- The dummy slot in front of the queue. -/
def queueDummy (db : Db) : Option ℕ :=
  if db.sb.queueHead = 0 then none
  else (db.efSlotAtOffset db.sb.queueHead).filter fun i => (db.slot i).status = statusQueueDummy

/-- The queued slot at an offset. -/
def queuedAt (db : Db) (off : ℕ) : Option ℕ :=
  (db.efSlotAtOffset off).filter fun i => (db.slot i).status = statusQueued

/-- The nodes of the queue, along the links from the dummy. -/
def queueNodes (db : Db) : List ℕ :=
  match db.queueDummy with
  | none => []
  | some d =>
      walk db.queuedAt (fun i => (db.slot i).nextOffset) (db.sb.maxSlots + 1) (db.slot d).nextOffset

/-- The pending messages, in the order in which pops deliver them. -/
def pending (db : Db) : List (List UInt8) := db.queueNodes.map fun i => (db.slot i).message

end Db

namespace View

/-- A queue behind the dummy `d`, with the nodes `q`. -/
structure QueueIs (g : Geometry) (v : View) (d : ℕ) (q : List ℕ) : Prop where
  lt : d < g.n
  head : v.sb.queueHead = g.ptr d
  dummy : (v.slots d).status = statusQueueDummy
  linked : Linked g.idOf (fun i => (v.slots i).nextOffset) (v.slots d).nextOffset q 0
  nodup : q.Nodup
  queued : ∀ i ∈ q, (v.slots i).status = statusQueued
  fits : ∀ i ∈ q, (v.slots i).messageLen ≤ 47
  tail : v.sb.queueTail = g.ptr (q.getLastD d)

/-- The queue is well formed, with the nodes `q`; a queue that was never used has no dummy. -/
def HasQueue (g : Geometry) (v : View) (q : List ℕ) : Prop :=
  (v.sb.queueHead = 0 ∧ q = []) ∨ ∃ d, v.QueueIs g d q

variable {g : Geometry} {v w : View} {d i : ℕ} {q : List ℕ}

/-- The nodes of a linked segment are slots. -/
lemma lt_of_mem_linked {off z : ℕ} (h : Linked g.idOf (fun i => (v.slots i).nextOffset) off q z)
    (hi : i ∈ q) : i < g.n := by
  obtain ⟨o, ho⟩ := h.exists_of_mem hi
  exact ((g.idOf_eq_some_iff _ _).mp ho).1

/-- A queued slot is a slot of the layout. -/
lemma QueueIs.lt_of_mem (h : v.QueueIs g d q) (hi : i ∈ q) : i < g.n := lt_of_mem_linked h.linked hi

/-- The dummy is no message. -/
lemma QueueIs.dummy_not_mem (h : v.QueueIs g d q) : d ∉ q := by
  intro hd
  have hst := h.queued d hd
  rw [h.dummy] at hst
  simp at hst

/-- A queue depends on its ends and on its own slots. -/
lemma QueueIs.congr (h : v.QueueIs g d q) (hhead : w.sb.queueHead = v.sb.queueHead)
    (htail : w.sb.queueTail = v.sb.queueTail) (hslots : ∀ i ∈ d :: q, w.slots i = v.slots i) :
    w.QueueIs g d q := by
  have hd := hslots d List.mem_cons_self
  have hq : ∀ i ∈ q, w.slots i = v.slots i := fun i hi => hslots i (List.mem_cons_of_mem d hi)
  refine ⟨h.lt, hhead.trans h.head, ?_, ?_, h.nodup, ?_, ?_, htail.trans h.tail⟩
  · rw [hd]
    exact h.dummy
  · rw [hd]
    refine h.linked.mono fun o a ha ho => ⟨ho, ?_⟩
    rw [hq a ha]
  · intro i hi
    rw [hq i hi]
    exact h.queued i hi
  · intro i hi
    rw [hq i hi]
    exact h.fits i hi

/-- The queue depends on its ends and its slots alone. -/
lemma HasQueue.congr (h : v.HasQueue g q) (hhead : w.sb.queueHead = v.sb.queueHead)
    (htail : w.sb.queueTail = v.sb.queueTail)
    (hslots : ∀ i, (v.slots i).status = statusQueueDummy ∨ (v.slots i).status = statusQueued →
      w.slots i = v.slots i) : w.HasQueue g q := by
  rcases h with ⟨h0, hq⟩ | ⟨d, h⟩
  · exact .inl ⟨hhead.trans h0, hq⟩
  · refine .inr ⟨d, h.congr hhead htail fun i hi => hslots i ?_⟩
    rcases List.mem_cons.mp hi with rfl | hi
    · exact .inl h.dummy
    · exact .inr (h.queued i hi)

/-- The queue depends on the slots and the superblock's ends. -/
lemma HasQueue.still (h : v.HasQueue g q) (hst : Still v w) : w.HasQueue g q :=
  h.congr (by rw [hst.sb]) (by rw [hst.sb]) fun i _ => by rw [hst.slots]

/-- Take the first node `i` off the queue behind the dummy `d`. -/
def unlinked (g : Geometry) (v : View) (d i : ℕ) : View :=
  (v.setSb (v.sb.setQueueTail
    (if v.sb.queueTail = g.ptr i then
      (if (v.slots i).nextOffset ≠ 0 then (v.slots i).nextOffset else g.ptr d)
    else v.sb.queueTail))).setSlot d
      (Slot.sealed v.sb.slotCrc d { v.slots d with nextOffset := (v.slots i).nextOffset })

/-- A pop leaves the other slots alone.
Source: `ef_queue.c`, `ef_queue_dequeue_mpmc` -/
lemma unlinked_slots_of_ne {j : ℕ} (hj : j ≠ d) : (v.unlinked g d i).slots j = v.slots j := by
  unfold unlinked
  rw [setSlot_slots, Function.update_of_ne hj]
  rfl

/-- A pop links the dummy to the node after the popped one.
Source: `ef_queue.c`, `ef_queue_dequeue_mpmc` -/
lemma unlinked_slots_self : (v.unlinked g d i).slots d =
    Slot.sealed v.sb.slotCrc d { v.slots d with nextOffset := (v.slots i).nextOffset } := by
  unfold unlinked
  rw [setSlot_slots, Function.update_self]

/-- Taking the first node off leaves the rest of the queue. -/
lemma QueueIs.unlinked (h : v.QueueIs g d (i :: q)) : (v.unlinked g d i).QueueIs g d q := by
  have hd := h.dummy_not_mem
  have hne : ∀ j ∈ i :: q, j ≠ d := fun j hj heq => hd (heq ▸ hj)
  have hslots : ∀ j ∈ i :: q, (v.unlinked g d i).slots j = v.slots j := fun j hj =>
    unlinked_slots_of_ne (hne j hj)
  have hnext : ((v.unlinked g d i).slots d).nextOffset = (v.slots i).nextOffset := by
    rw [unlinked_slots_self, Slot.sealed_nextOffset]
  obtain ⟨hiq, hnd⟩ := List.nodup_cons.mp h.nodup
  refine ⟨h.lt, h.head, ?_, ?_, hnd, ?_, ?_, ?_⟩
  · rw [unlinked_slots_self, Slot.sealed_status]
    exact h.dummy
  · rw [hnext]
    refine h.linked.2.mono fun o a ha ho => ⟨ho, ?_⟩
    rw [hslots a (List.mem_cons_of_mem i ha)]
  · intro j hj
    rw [hslots j (List.mem_cons_of_mem i hj)]
    exact h.queued j (List.mem_cons_of_mem i hj)
  · intro j hj
    rw [hslots j (List.mem_cons_of_mem i hj)]
    exact h.fits j (List.mem_cons_of_mem i hj)
  · -- the tail moves only if the node was the last one
    have htail : v.sb.queueTail = g.ptr (q.getLastD i) := by
      rw [h.tail, List.getLastD_cons]
    show (if v.sb.queueTail = g.ptr i then _ else v.sb.queueTail) = g.ptr (q.getLastD d)
    cases q with
    | nil =>
        have h0 : (v.slots i).nextOffset = 0 := h.linked.2
        rw [htail, h0]
        simp
    | cons j q =>
        rw [List.getLastD_cons] at htail ⊢
        have hmem : q.getLastD j ∈ j :: q := List.getLastD_mem_cons
        rw [if_neg, htail]
        rw [htail]
        intro heq
        exact hiq (g.ptr_inj heq ▸ hmem)

end View

namespace Db

variable {g : Geometry} {db db' : Db} {d i : ℕ} {q : List ℕ}

/-- A queued slot at an offset, read off the view. -/
lemma queuedAt_eq (h : (db.view g).Bound g) (off : ℕ) :
    db.queuedAt off = (g.idOf off).filter fun i => ((db.view g).slots i).status = statusQueued := by
  unfold queuedAt
  rw [efSlotAtOffset_eq h]
  rcases hid : g.idOf off with _ | i
  · rfl
  · have hi := ((g.idOf_eq_some_iff _ _).mp hid).1
    simp only [Option.filter, slot_eq h.cap hi]

/-- The dummy that the queue functions look for. -/
lemma efSlotAtOffset_dummy (h : (db.view g).Bound g) (hq : (db.view g).QueueIs g d q) :
    db.efSlotAtOffset db.sb.queueHead = some d ∧ (db.slot d).status = statusQueueDummy := by
  have hhead : db.sb.queueHead = g.ptr d := hq.head
  refine ⟨?_, ?_⟩
  · rw [efSlotAtOffset_eq h, hhead, g.idOf_ptr hq.lt]
  · rw [slot_eq h.cap hq.lt]
    exact hq.dummy

/-- **The pending messages** are those of the queue's nodes. -/
lemma pending_eq (h : (db.view g).Bound g) (hq : (db.view g).HasQueue g q) :
    db.pending = q.map fun i => ((db.view g).slots i).message := by
  unfold pending queueNodes queueDummy
  rcases hq with ⟨h0, rfl⟩ | ⟨d, hq⟩
  · rw [if_pos (show db.sb.queueHead = 0 from h0)]
    rfl
  obtain ⟨hat, hdummy⟩ := efSlotAtOffset_dummy h hq
  have hhead : db.sb.queueHead = g.ptr d := hq.head
  have hne : db.sb.queueHead ≠ 0 := by
    rw [hhead]
    exact g.ptr_ne_zero d
  rw [if_neg hne, hat]
  simp only [Option.filter, hdummy, decide_true, if_true]
  -- the walk goes along the nodes and stops at their end
  have hchain : Chain db.queuedAt (fun i => (db.slot i).nextOffset) (db.slot d).nextOffset q := by
    rw [slot_eq h.cap hq.lt]
    refine Linked.chain (z := 0) (hq.linked.mono fun o a ha ho => ⟨?_, ?_⟩) ?_
    · rw [queuedAt_eq h, ho]
      exact Option.filter_some_pos (decide_eq_true (hq.queued a ha))
    · rw [slot_eq h.cap (hq.lt_of_mem ha)]
    · rw [queuedAt_eq h, g.idOf_zero]
      rfl
  have hlen : q.length < db.sb.maxSlots + 1 := by
    have hmax : db.sb.maxSlots = g.n := h.maxSlots
    have hsub := hq.nodup.subperm fun i hi => List.mem_range.mpr (hq.lt_of_mem hi)
    have hle := hsub.length_le
    rw [List.length_range] at hle
    omega
  rw [hchain.walk_eq hlen]
  refine List.map_congr_left fun i hi => ?_
  rw [slot_eq h.cap (hq.lt_of_mem hi)]

/-! ### The queue lock -/

/-- The queue lock cannot be taken. -/
def queueLockBusy (db : Db) : Prop := db.contended.1 = true ∨ db.sb.queueLock ≠ 0

instance (db : Db) : Decidable db.queueLockBusy := inferInstanceAs (Decidable (_ ∨ _))

/-- From schema v5 on, the queue lock is a byte of its own: taking it sets the byte, or fails and
changes nothing. -/
lemma efQueueLockAcquire_cases (hs : (db.view g).sb.schemaVersion = schemaVersion) :
    (db.queueLockBusy ∧ db.efQueueLockAcquire.1 = .queueBusy ∧
        db.efQueueLockAcquire.2.view g = (db.view g).tick) ∨
      (¬ db.queueLockBusy ∧ db.efQueueLockAcquire.1 = .ok ∧
        db.efQueueLockAcquire.2.view g =
          (db.view g).tick.setSb ((db.view g).sb.setQueueLock 1)) := by
  have hview : db.contended.2.view g = (db.view g).tick := view_contended
  have hge : ¬ db.sb.schemaVersion < schemaVersion := not_lt.mpr (Eq.ge hs)
  unfold efQueueLockAcquire efSbQueueLockAcquire queueLockBusy
  simp only [sb_contended]
  rw [if_neg hge]
  by_cases hbusy : db.contended.1 = true ∨ db.sb.queueLock ≠ 0
  · refine .inl ⟨hbusy, ?_⟩
    rw [if_pos hbusy]
    exact ⟨rfl, hview⟩
  · refine .inr ⟨hbusy, ?_⟩
    rw [if_neg hbusy]
    refine ⟨rfl, ?_⟩
    rw [view_setQueueLock, hview]
    rfl

/-- A released lock clears that byte of the superblock.
Source: `ef_sb_layout.c`, `ef_sb_queue_lock_release` -/
lemma efSbQueueLockRelease_view (hs : (db.view g).sb.schemaVersion = schemaVersion) :
    db.efSbQueueLockRelease.view g = (db.view g).setSb ((db.view g).sb.setQueueLock 0) := by
  have hge : ¬ db.sb.schemaVersion < schemaVersion := not_lt.mpr (Eq.ge hs)
  unfold efSbQueueLockRelease
  rw [if_neg hge, view_setQueueLock]

/-- A section under the queue lock that changes nothing. -/
lemma queueSection_still {db₁ : Db} (hs : (db.view g).sb.schemaVersion = schemaVersion)
    (hfree : ¬ db.queueLockBusy)
    (hview : db₁.view g = (db.view g).tick.setSb ((db.view g).sb.setQueueLock 1)) :
    View.Still (db.view g) (db₁.efSbQueueLockRelease.view g) := by
  have hlock : (db.view g).sb.queueLock = 0 := by
    by_contra h0
    exact hfree (.inr h0)
  have hs₁ : (db₁.view g).sb.schemaVersion = schemaVersion := by
    rw [hview]
    exact hs
  rw [efSbQueueLockRelease_view hs₁, hview]
  have hsb : ((db.view g).sb.setQueueLock 1).setQueueLock 0 = (db.view g).sb := by
    generalize (db.view g).sb = sb at hlock ⊢
    cases sb
    simp only [Superblock.setQueueLock] at hlock ⊢
    rw [hlock]
  refine ⟨?_, rfl, rfl, rfl, (View.Still.tick _).quiet⟩
  exact hsb

/-! ### The pop -/

/-- The stores by which a pop takes the node at `first` off the queue, with their undo record. -/
def unlinkFirst (db : Db) (dummyOffset firstOff dummyId dummy first : ℕ) : Db :=
  let tailOff := db.sb.queueTail
  let firstNext := (db.slotAt first).nextOffset
  -- the dummy's link, which the record saves, is the offset of the node
  let db := if db.txnActive then (db.efTxnRecordQueuePop firstOff firstOff tailOff firstNext).2
    else db
  let db := db.setNext dummy firstNext
  let db := if tailOff = firstOff then
      db.setQueueTail (if firstNext ≠ 0 then firstNext else dummyOffset)
    else db
  db.efSlotHeaderCrcStore dummyId dummy

/-- A taken lock leaves the handle bound. -/
lemma bound_locked (h : (db.view g).Bound g) :
    ((db.view g).tick.setSb ((db.view g).sb.setQueueLock 1)).Bound g :=
  h.congr rfl rfl rfl rfl

/-- A pop with the queue lock, on a queue whose first node is `i`. -/
lemma efQueueDequeueMpmc_cons (h : (db.view g).Bound g)
    (hs : (db.view g).sb.schemaVersion = schemaVersion) (hq : (db.view g).QueueIs g d (i :: q))
    {db₁ : Db} (hlock : db.efQueueLockAcquire = (.ok, db₁))
    (hview : db₁.view g = (db.view g).tick.setSb ((db.view g).sb.setQueueLock 1)) (bufCap : ℕ) :
    db.efQueueDequeueMpmc bufCap =
      if bufCap < ((db.view g).slots i).messageLen + 1 then
        (.payloadLen, [], db₁.efSbQueueLockRelease.setError .payloadLen)
      else
        let (err, db₂) :=
          (db₁.unlinkFirst (g.ptr d) (g.ptr i) d (g.ptr d) (g.ptr i)).efReturnSlotToPool i (g.ptr i)
        (err, ((db.view g).slots i).message,
          db₂.efSbQueueLockRelease.efDbMarkMetaDirty.setError err) := by
  have hi : i < g.n := hq.lt_of_mem List.mem_cons_self
  have h₁ : (db₁.view g).Bound g := by
    rw [hview]
    exact bound_locked h
  have hs₁ : (db₁.view g).sb.schemaVersion = schemaVersion := by
    rw [hview]
    exact hs
  have hhead : db.sb.queueHead = g.ptr d := hq.head
  have hslot : ∀ j, j < g.n → db₁.slotAt (g.ptr j) = (db.view g).slots j := by
    intro j hj
    rw [slotAt_eq db₁ hj, hview]
    rfl
  have hid : ∀ j, j < g.n → db₁.slot j = (db.view g).slots j := by
    intro j hj
    rw [slot_eq h₁.cap hj, hview]
    rfl
  have hfirst : ((db.view g).slots d).nextOffset = g.ptr i :=
    ((g.idOf_eq_some_iff _ _).mp hq.linked.1).2
  have hdummy : (db₁.efSlotAtOffset (g.ptr d)).filter
      (fun i => (db₁.slot i).status = statusQueueDummy) = some d := by
    rw [efSlotAtOffset_eq h₁, g.idOf_ptr hq.lt]
    refine Option.filter_some_pos (decide_eq_true ?_)
    rw [hid d hq.lt]
    exact hq.dummy
  have hnode : (db₁.efSlotAtOffset (g.ptr i)).filter
      (fun i => (db₁.slot i).status = statusQueued) = some i := by
    rw [efSlotAtOffset_eq h₁, g.idOf_ptr hi]
    refine Option.filter_some_pos (decide_eq_true ?_)
    rw [hid i hi]
    exact hq.queued i List.mem_cons_self
  have hlen : (db₁.mem (g.ptr i + 8)).toNat = ((db.view g).slots i).messageLen := by
    rw [← hslot i hi]
    rfl
  have hmsg : readBytes db₁.mem (g.ptr i + 8 + 1) ((db.view g).slots i).messageLen =
      ((db.view g).slots i).message := by
    have hfit := hq.fits i List.mem_cons_self
    unfold Slot.message
    rw [← hslot i hi] at hfit ⊢
    exact (readBytes_take db₁.mem (g.ptr i + 8 + 1) 47 _ hfit).symm
  unfold efQueueDequeueMpmc
  simp only [hhead]
  rw [if_neg (g.ptr_ne_zero d), hlock]
  simp only
  rw [hdummy]
  simp only [slotPtr_eq h₁.cap, hslot d hq.lt, hfirst]
  rw [if_neg (g.ptr_ne_zero i), hnode]
  simp only [efSlotPayloadPtr_eq hs₁, hlen, hmsg, unlinkFirst]

/-- What the stores that take the first node off do, beside the undo log. -/
lemma unlinkFirst_view (hlog : db.txnActive = true → (db.view g).Ok g)
    (hd : d < g.n) (hi : i < g.n) :
    ∃ seg, (db.unlinkFirst (g.ptr d) (g.ptr i) d (g.ptr d) (g.ptr i)).view g =
      ((db.view g).unlinked g d i).setSeg seg := by
  have hnext : ((db.view g).slots i).nextOffset % u64 = ((db.view g).slots i).nextOffset :=
    Nat.mod_eq_of_lt (view_nextOffset_lt db hi)
  have hptr : g.ptr d % u64 = g.ptr d := Nat.mod_eq_of_lt (g.ptr_lt_u64 hd)
  have htail : db.sb.queueTail = (db.view g).sb.queueTail := rfl
  unfold unlinkFirst
  simp only [slotAt_eq db hi, htail]
  -- the record is written in the undo segment
  obtain ⟨seg, hrec⟩ : ∃ seg, (if db.txnActive = true then
      (db.efTxnRecordQueuePop (g.ptr i) (g.ptr i) (db.view g).sb.queueTail
        ((db.view g).slots i).nextOffset).2 else db).view g = (db.view g).setSeg seg := by
    by_cases hact : db.txnActive = true
    · rw [if_pos hact]
      exact efUndoRecordAppend_view (hlog hact) _ _ _ _
    · rw [if_neg hact]
      exact ⟨_, rfl⟩
  generalize (if db.txnActive = true then
      (db.efTxnRecordQueuePop (g.ptr i) (g.ptr i) (db.view g).sb.queueTail
        ((db.view g).slots i).nextOffset).2 else db) = db₁ at hrec ⊢
  refine ⟨seg, ?_⟩
  rw [view_efSlotHeaderCrcStore hd]
  unfold View.unlinked
  by_cases hlast : (db.view g).sb.queueTail = g.ptr i
  · rw [if_pos hlast, if_pos hlast, view_setQueueTail, view_setNext hd, hrec, hnext]
    by_cases hzero : ((db.view g).slots i).nextOffset = 0
    · simp [hzero, hptr]
      rfl
    · simp [hzero, hnext]
      rfl
  · rw [if_neg hlast, if_neg hlast, view_setNext hd, hrec, hnext]
    simp
    rfl

/-- Whether the lock can be taken depends on the environment and on the lock byte. -/
lemma indexLockBusy_congr {db₁ : Db} (henv : db.env.contention = db₁.env.contention)
    (hlock : db.sb.indexWriteLock = db₁.sb.indexWriteLock) : db.indexLockBusy ↔ db₁.indexLockBusy := by
  have hc : db.contended.1 = db₁.contended.1 := by
    unfold contended
    rw [henv]
    cases db₁.env.contention <;> rfl
  unfold indexLockBusy
  rw [hc, hlock]

/-- The pop comes to unlink a message: the queue lock is free, and the first message fits the
buffer. -/
def popUnlinks (db : Db) (bufCap : ℕ) : Prop :=
  ¬ db.queueLockBusy ∧ ∃ m, db.pending.head? = some m ∧ m.length + 1 ≤ bufCap

/-- A message is as long as its first byte says. -/
lemma length_message (h : (db.view g).QueueIs g d q) (hi : i ∈ q) :
    ((db.view g).slots i).message.length = ((db.view g).slots i).messageLen := by
  have hfit := h.fits i hi
  have hlen := view_length_payload db (h.lt_of_mem hi)
  unfold Slot.message
  rw [List.length_take, List.length_drop, hlen]
  omega

/-- **A pop that unlinks nothing** fails, and leaves the view still. -/
lemma efQueueDequeueMpmc_of_not (h : (db.view g).Bound g)
    (hs : (db.view g).sb.schemaVersion = schemaVersion) (hq : (db.view g).HasQueue g q)
    {bufCap : ℕ} (hno : ¬ db.popUnlinks bufCap) :
    (db.efQueueDequeueMpmc bufCap).1 ≠ .ok ∧
      View.Still (db.view g) ((db.efQueueDequeueMpmc bufCap).2.2.view g) := by
  have hpend := pending_eq h hq
  rcases hq with ⟨h0, -⟩ | ⟨d, hq⟩
  · unfold efQueueDequeueMpmc
    simp only
    rw [if_pos (show db.sb.queueHead = 0 from h0)]
    exact ⟨fun hc => (by cases hc), View.Still.refl _⟩
  have hhead : db.sb.queueHead = g.ptr d := hq.head
  obtain ⟨hbusy, herr, hview⟩ | ⟨hfree, hok, hview⟩ := efQueueLockAcquire_cases hs
  · unfold efQueueDequeueMpmc
    simp only [hhead]
    rw [if_neg (g.ptr_ne_zero d)]
    generalize db.efQueueLockAcquire = r at herr hview ⊢
    obtain ⟨e, db₁⟩ := r
    simp only at herr hview
    subst herr
    refine ⟨fun hc => (by cases hc), ?_⟩
    rw [hview]
    exact View.Still.tick _
  have hlock : db.efQueueLockAcquire = (.ok, db.efQueueLockAcquire.2) := by rw [← hok]
  generalize db.efQueueLockAcquire.2 = db₁ at hlock hview
  have hstill := queueSection_still hs hfree hview
  cases q with
  | nil =>
      -- the dummy has no successor
      have h₁ : (db₁.view g).Bound g := by
        rw [hview]
        exact bound_locked h
      have hslot : db₁.slot d = (db.view g).slots d := by
        rw [slot_eq h₁.cap hq.lt, hview]
        rfl
      have hdummy : (db₁.efSlotAtOffset (g.ptr d)).filter
          (fun i => (db₁.slot i).status = statusQueueDummy) = some d := by
        rw [efSlotAtOffset_eq h₁, g.idOf_ptr hq.lt]
        refine Option.filter_some_pos (decide_eq_true ?_)
        rw [hslot]
        exact hq.dummy
      have hnil : (db₁.slotAt (db₁.slotPtr d)).nextOffset = 0 :=
        (congrArg Slot.nextOffset hslot).trans hq.linked
      unfold efQueueDequeueMpmc
      simp only [hhead]
      rw [if_neg (g.ptr_ne_zero d), hlock]
      simp only
      rw [hdummy]
      simp only [hnil, if_true]
      exact ⟨fun hc => (by cases hc), hstill⟩
  | cons i q =>
      have hlen := length_message hq List.mem_cons_self
      have hsmall : bufCap < ((db.view g).slots i).messageLen + 1 := by
        by_contra hfit
        refine hno ⟨hfree, ((db.view g).slots i).message, ?_, by omega⟩
        rw [hpend]
        rfl
      rw [efQueueDequeueMpmc_cons h hs hq hlock hview, if_pos hsmall]
      exact ⟨fun hc => (by cases hc), hstill⟩

/-- **A pop that unlinks a message**: the node leaves the queue, and is then given back to the
pool. -/
lemma efQueueDequeueMpmc_of_unlinks (h : (db.view g).Bound g)
    (hs : (db.view g).sb.schemaVersion = schemaVersion)
    (hlog : db.txnActive = true → (db.view g).Ok g) (hq : (db.view g).HasQueue g q)
    {bufCap : ℕ} (hun : db.popUnlinks bufCap) :
    ∃ (d i : ℕ) (q' : List ℕ) (db₁ : Db) (seg : Segment), q = i :: q' ∧ (db.view g).QueueIs g d q ∧
      db₁.view g = ((((db.view g).tick.setSb
        ((db.view g).sb.setQueueLock 1)).unlinked g d i).setSeg seg) ∧
      db.efQueueDequeueMpmc bufCap =
        let (err, db₂) := db₁.efReturnSlotToPool i (g.ptr i)
        (err, ((db.view g).slots i).message,
          db₂.efSbQueueLockRelease.efDbMarkMetaDirty.setError err) := by
  obtain ⟨hfree, m, hm, hfit⟩ := hun
  rw [pending_eq h hq] at hm
  rcases hq with ⟨-, rfl⟩ | ⟨d, hq⟩
  · cases hm
  cases q with
  | nil => cases hm
  | cons i q =>
      have hmsg : ((db.view g).slots i).message = m := Option.some.inj hm
      have hlen := length_message hq List.mem_cons_self
      obtain ⟨hbusy, -⟩ | ⟨-, hok, hview⟩ := efQueueLockAcquire_cases hs
      · exact absurd hbusy hfree
      have hlock : db.efQueueLockAcquire = (.ok, db.efQueueLockAcquire.2) := by rw [← hok]
      generalize db.efQueueLockAcquire.2 = db₁ at hlock hview
      have h₁ : (db₁.view g).Bound g := by
        rw [hview]
        exact bound_locked h
      have hlog₁ : db₁.txnActive = true → (db₁.view g).Ok g := by
        intro hact
        have hcore : (db₁.view g).core = (db.view g).tick.core := by
          rw [hview]
          rfl
        rw [hview]
        exact (View.ok_tick.mpr (hlog ((congrArg Core.txnActive hcore).symm.trans hact))).setSb rfl rfl
      obtain ⟨seg, hstores⟩ := unlinkFirst_view hlog₁ hq.lt (hq.lt_of_mem List.mem_cons_self)
      refine ⟨d, i, q, db₁.unlinkFirst (g.ptr d) (g.ptr i) d (g.ptr d) (g.ptr i), seg, rfl, hq,
        ?_, ?_⟩
      · rw [hstores, hview]
      · rw [efQueueDequeueMpmc_cons h hs hq hlock hview, if_neg (by rw [← hmsg] at hfit; omega)]

end Db

end Endfields.Model
