import Endfields.Spec.Queue
import Endfields.Spec.Alloc

/-!
# A pop that fails

A pop takes the node off the queue before it gives the slot back to the pool, and the release takes
a second lock. When that lock cannot be taken the pop fails, and the message is gone.

* **Main result** (`efQueuePop_keeps_pending_iff`): a failing pop leaves the pending messages,
  exactly if it does not come to unlink a message while the write lock of the index is held by
  another party.
-/

namespace Endfields.Model

open Endfields.Lib

namespace Db

variable {g : Geometry} {db : Db} {q : List ℕ} {bufCap : ℕ}

/-- The pending messages depend on the view. -/
lemma pending_of_still {db' : Db} (h : (db.view g).Bound g) (hq : (db.view g).HasQueue g q)
    (hst : View.Still (db.view g) (db'.view g)) : db'.pending = db.pending := by
  rw [pending_eq h hq, pending_eq (hst.bound h) (hq.still hst), hst.slots]

/-- The handle between the two steps of a pop: the first node has left the queue. -/
structure Unlinked (g : Geometry) (db : Db) (d : ℕ) (q : List ℕ) (db₁ : Db) : Prop where
  bound : (db₁.view g).Bound g
  schema : (db₁.view g).sb.schemaVersion = schemaVersion
  queue : (db₁.view g).QueueIs g d q
  message : ∀ i ∈ q, ((db₁.view g).slots i).message = ((db.view g).slots i).message
  busy : db₁.indexLockBusy ↔ db.contended.2.indexLockBusy

lemma unlinked_of_view {d i : ℕ} {db₁ : Db} {seg : Segment} (h : (db.view g).Bound g)
    (hs : (db.view g).sb.schemaVersion = schemaVersion) (hq : (db.view g).QueueIs g d (i :: q))
    (hview : db₁.view g = ((((db.view g).tick.setSb
      ((db.view g).sb.setQueueLock 1)).unlinked g d i).setSeg seg)) : Unlinked g db d q db₁ where
  bound := by
    rw [hview]
    exact h.congr rfl rfl rfl rfl
  schema := by
    rw [hview]
    exact hs
  queue := by
    have hlocked : ((db.view g).tick.setSb ((db.view g).sb.setQueueLock 1)).QueueIs g d (i :: q) :=
      hq.congr rfl rfl fun _ _ => rfl
    rw [hview]
    exact hlocked.unlinked.congr rfl rfl fun _ _ => rfl
  message := by
    intro j hj
    have hjd : j ≠ d := fun hjd => hq.dummy_not_mem (hjd ▸ List.mem_cons_of_mem i hj)
    rw [hview, View.setSeg_slots, View.unlinked_slots_of_ne hjd, View.setSb_slots, View.tick_slots]
  busy := by
    -- the second lock attempt is the next one, on the same lock byte
    have hcore : (db₁.view g).core = (db.contended.2.view g).core := by
      rw [hview, view_contended]
      rfl
    have hlock : (db₁.view g).sb.indexWriteLock = (db.view g).sb.indexWriteLock := by
      rw [hview]
      rfl
    refine indexLockBusy_congr (congrArg Core.contention hcore) ?_
    rw [sb_contended]
    exact hlock

/-- The end of a pop whose release has failed: the queue stays without the node. -/
lemma Unlinked.pending_release {d : ℕ} {db₁ db₂ : Db} (hu : Unlinked g db d q db₁)
    (hst : View.Still (db₁.view g) (db₂.view g)) (err : Err) :
    (db₂.efSbQueueLockRelease.efDbMarkMetaDirty.setError err).pending =
      q.map fun i => ((db.view g).slots i).message := by
  have hs₂ : (db₂.view g).sb.schemaVersion = schemaVersion := by
    rw [hst.sb]
    exact hu.schema
  have hview : (db₂.efSbQueueLockRelease.efDbMarkMetaDirty.setError err).view g =
      (db₂.view g).setSb ((db₂.view g).sb.setQueueLock 0) := by
    rw [view_setError, view_efDbMarkMetaDirty, efSbQueueLockRelease_view hs₂]
  generalize db₂.efSbQueueLockRelease.efDbMarkMetaDirty.setError err = db₃ at hview ⊢
  have h₃ : (db₃.view g).Bound g := by
    rw [hview]
    exact (hst.bound hu.bound).congr rfl rfl rfl rfl
  have hq₃ : (db₃.view g).QueueIs g d q := by
    have hhead : (db₂.view g).sb.queueHead = (db₁.view g).sb.queueHead := by rw [hst.sb]
    have htail : (db₂.view g).sb.queueTail = (db₁.view g).sb.queueTail := by rw [hst.sb]
    rw [hview]
    exact hu.queue.congr hhead htail fun j _ => congrFun hst.slots j
  rw [pending_eq h₃ (.inr ⟨d, hq₃⟩)]
  refine List.map_congr_left fun j hj => ?_
  rw [hview, View.setSb_slots, hst.slots]
  exact hu.message j hj

/-- A pop that unlinks a message fails exactly if the write lock of the index cannot be taken, and
then the message is gone. -/
lemma efQueueDequeueMpmc_lost (h : (db.view g).Bound g)
    (hs : (db.view g).sb.schemaVersion = schemaVersion)
    (hlog : db.txnActive = true → (db.view g).Ok g) (hq : (db.view g).HasQueue g q)
    (hun : db.popUnlinks bufCap) :
    ((db.efQueueDequeueMpmc bufCap).1 = .ok ↔ ¬ db.contended.2.indexLockBusy) ∧
      ((db.efQueueDequeueMpmc bufCap).1 ≠ .ok →
        (db.efQueueDequeueMpmc bufCap).2.2.pending = db.pending.tail) := by
  obtain ⟨d, i, q, db₁, seg, rfl, hqueue, hview, heq⟩ :=
    efQueueDequeueMpmc_of_unlinks h hs hlog hq hun
  have hu := unlinked_of_view h hs hqueue hview
  obtain ⟨hfst, hfail⟩ := efReturnSlotToPool_fst (g := g) hu.bound.writable i (g.ptr i)
  have hbegin : db₁.efIndexWriteBegin.1 = .ok ↔ ¬ db.contended.2.indexLockBusy :=
    (efIndexWriteBegin_ok_iff_of_v5 hu.schema).trans (not_congr hu.busy)
  have hspec := (efIndexWriteBegin_spec g db₁).2
  rw [pending_eq h hq, heq]
  generalize db₁.efReturnSlotToPool i (g.ptr i) = r at hfst hfail ⊢
  obtain ⟨e, db₂⟩ := r
  have hfst : e = db₁.efIndexWriteBegin.1 := hfst
  simp only
  refine ⟨?_, fun herr => ?_⟩
  · rw [hfst, hbegin]
  rw [hfst] at herr
  have hview₂ : db₂.view g = db₁.efIndexWriteBegin.2.view g := hfail herr
  refine hu.pending_release ?_ e
  rw [hview₂]
  rcases hspec with ⟨-, hst, -⟩ | ⟨hok, -⟩
  · exact hst
  · exact absurd hok herr

/-- **A pop and the pending messages.** If it fails it leaves them as they are, exactly if it is not
the case that it comes to unlink a message while the index write lock is held by another party. -/
theorem efQueuePop_keeps_pending_iff (h : (db.view g).Bound g)
    (hs : (db.view g).sb.schemaVersion = schemaVersion)
    (hlog : db.txnActive = true → (db.view g).Ok g) (hq : (db.view g).HasQueue g q) (bufCap : ℕ) :
    ((db.efQueuePop bufCap).1 ≠ .ok → (db.efQueuePop bufCap).2.2.pending = db.pending) ↔
      ¬ (db.popUnlinks bufCap ∧ db.contended.2.indexLockBusy) := by
  unfold efQueuePop
  rw [efDbRequireWrite_eq h.writable]
  simp only
  by_cases hun : db.popUnlinks bufCap
  · obtain ⟨hok, hlost⟩ := efQueueDequeueMpmc_lost h hs hlog hq hun
    constructor
    · rintro hkeeps ⟨-, hbusy⟩
      have herr : (db.efQueueDequeueMpmc bufCap).1 ≠ .ok := fun hc => hok.mp hc hbusy
      obtain ⟨-, m, hm, -⟩ := hun
      have htail := (hlost herr).symm.trans (hkeeps herr)
      have hlen := congrArg List.length htail
      rw [List.length_tail] at hlen
      have hpos : 0 < db.pending.length := List.length_pos_of_mem (List.mem_of_head? hm)
      omega
    · intro hno herr
      exact absurd (hok.mpr fun hbusy => hno ⟨hun, hbusy⟩) herr
  · obtain ⟨-, hstill⟩ := efQueueDequeueMpmc_of_not h hs hq hun
    exact ⟨fun _ hno => hun hno.1, fun _ _ => pending_of_still h hq hstill⟩

/-- A queue of one message; the write lock of the index is held through the second lock attempt. -/
def oneQueued : Db :=
  let db := ((newMemory 2 0).efQueuePush [7, 7]).2
  { db with env := { db.env with contention := [false, true] } }

lemma layout_oneQueued : oneQueued.Layout := by decide +kernel

lemma queueIs_oneQueued :
    (oneQueued.view layout_oneQueued.geometry).QueueIs layout_oneQueued.geometry 1 [0] := by
  have hnil : ((oneQueued.view layout_oneQueued.geometry).slots 0).nextOffset = 0 := by decide +kernel
  refine ⟨?_, ?_, ?_, ⟨?_, hnil⟩, ?_, ?_, ?_, ?_⟩
  all_goals decide +kernel

theorem efQueuePop_keeps_pending_of_one :
    ((oneQueued.efQueuePop 2).1 ≠ .ok → (oneQueued.efQueuePop 2).2.2.pending = oneQueued.pending) ↔
      ¬ (oneQueued.popUnlinks 2 ∧ oneQueued.contended.2.indexLockBusy) :=
  efQueuePop_keeps_pending_iff layout_oneQueued.ok.toBound layout_oneQueued.ok.schema
    (fun _ => layout_oneQueued.ok) (.inr ⟨1, queueIs_oneQueued⟩) 2

/-- The pop is told that the index is busy, and the message is gone. -/
theorem efQueuePop_loses_message :
    oneQueued.pending = [[7, 7]] ∧ (oneQueued.efQueuePop 48).1 = .indexBusy ∧
      (oneQueued.efQueuePop 48).2.2.pending = [] := by decide +kernel

end Db

end Endfields.Model
