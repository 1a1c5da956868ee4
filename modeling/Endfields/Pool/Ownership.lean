import Endfields.Spec.Blob
import Endfields.Pool.Refusal

/-!
# Calls addressed to a linked slot

`ef_write_payload`, `ef_write_blob`, `ef_set_next_offset`, `ef_set_status` and `ef_free_slot` take
the id of any slot, also of one that the queue or a blob has linked.

* `SlotCall`, `SlotCall.gives`: such a call, and the status that it gives the slot, if it is not
  refused.
* `Db.OthersKept db i db'`: the pending messages, and the reads of the blobs other than that at `i`,
  are those of `db`.
* `View.Relabelled g v w i st`: slot `i` has the status `st`, and the rest of the slots is as it
  was.
* **The queue** (`pending_relabelled_iff`) and **the blobs** (`reads_relabelled_iff`): what a new
  status does to them.
* **`SlotCall.othersKept_iff`**: such a call leaves the others alone exactly if it spares them.
-/

namespace Endfields.Model

open Endfields.Lib

/-- A call addressed to a slot. -/
inductive SlotCall where
  | writePayload (data : List UInt8)
  | writeBlob (data : List UInt8)
  | setNextOffset (nextOffset : UInt64)
  | setStatus (status : UInt32)
  | freeSlot

namespace Db

variable {g : Geometry} {db db' : Db} {i j st : ℕ}

/-- The messages and the blobs of the other slots are those of `db`. -/
def OthersKept (db : Db) (i : ℕ) (db' : Db) : Prop :=
  db'.pending = db.pending ∧
    ∀ head, head ≠ i → ∀ bufCap, (db'.efReadBlob head bufCap).2 = (db.efReadBlob head bufCap).2

/-- The slot is linked: it is the dummy of the queue, one of its nodes, or an overflow slot of the
blob at another slot. -/
def LinkedSlot (db : Db) (i : ℕ) : Prop :=
  db.queueDummy = some i ∨ i ∈ db.queueNodes ∨
    ∃ head, head ≠ i ∧ (db.slot head).status = statusUsed ∧ i ∈ db.overflowChain head

/-- The slot at the head of the queue, whatever its status. -/
def headSlot (db : Db) : Option ℕ :=
  if db.sb.queueHead = 0 then none else db.efSlotAtOffset db.sb.queueHead

/-- The walk along the queue comes to slot `i`, whatever its status. -/
def SeenByQueue (db : Db) (i : ℕ) : Prop :=
  ∃ d, d ≠ i ∧ db.queueDummy = some d ∧
    i ∈ walk (withNode db.efSlotAtOffset (fun j => (db.slot j).status = statusQueued) i)
      (fun j => (db.slot j).nextOffset) (db.sb.maxSlots + 1) (db.slot d).nextOffset

/-- The read of a blob at another slot comes to slot `i`, whatever its status. -/
def SeenByBlob (db : Db) (i : ℕ) : Prop :=
  ∃ head, head ≠ i ∧ db.isBlob head = true ∧
    i ∈ walk (withNode db.slotIdAt db.isChunk i) (fun j => (db.slot j).nextOffset)
      (db.chunkCount head) (db.slot head).nextOffset

/-- With the status `st`, the slot is an overflow slot with a checksum that is not taken for
missing. -/
def chunkAs (db : Db) (i st : ℕ) : Prop :=
  st = statusOverflow ∧
    (db.sb.slotCrc = true → efSlotHeaderCrcCompute i { db.slot i with status := st } ≠ 0)

/-- **The status `st` spares the others**: the slot counts in the queue and in the blobs as before,
wherever they come to it. -/
structure SparedBy (db : Db) (i st : ℕ) : Prop where
  head : db.headSlot = some i → ((db.slot i).status = statusQueueDummy ↔ st = statusQueueDummy) ∨
    db.queuedAt (db.slot i).nextOffset = none
  queue : db.SeenByQueue i → ((db.slot i).status = statusQueued ↔ st = statusQueued)
  blob : db.SeenByBlob i → (db.isChunk i = true ↔ db.chunkAs i st)

end Db

namespace View

variable {g : Geometry} {v w : View} {d i j st : ℕ}

/-- Slot `i` has the status `st`, with the rest of its contents unless it is released or used for
data. -/
structure Relabelled (v w : View) (i st : ℕ) : Prop where
  head : w.sb.queueHead = v.sb.queueHead
  crc : w.sb.slotCrc = v.sb.slotCrc
  others : ∀ j, j ≠ i → w.slots j = v.slots j
  status : (w.slots i).status = st
  kept : st ≠ statusFree → st ≠ statusUsed →
    (w.slots i).payload = (v.slots i).payload ∧ (w.slots i).nextOffset = (v.slots i).nextOffset

/-- The slot counts as a node of the queue. -/
def isQueued (v : View) (j : ℕ) : Bool := (v.slots j).status = statusQueued

/-- The nodes behind slot `d`. -/
def nodesFrom (g : Geometry) (v : View) (d : ℕ) : List ℕ :=
  walk (fun o => (g.idOf o).filter v.isQueued) (fun j => (v.slots j).nextOffset) (g.n + 1)
    (v.slots d).nextOffset

namespace Relabelled

variable (h : v.Relabelled w i st)
include h

/-- A status written to `i` leaves the other slots' state alone. -/
lemma isQueued_of_ne (hj : j ≠ i) : w.isQueued j = v.isQueued j := by
  unfold isQueued
  rw [h.others j hj]

/-- The state of slot `i` is the one written. -/
lemma isQueued_self : w.isQueued i = decide (st = statusQueued) := by
  unfold isQueued
  rw [h.status]

/-- A status written to `i` leaves the other slots' state alone. -/
lemma isChunk_of_ne (hj : j ≠ i) : w.isChunk j = v.isChunk j := by
  unfold isChunk
  rw [h.others j hj, h.crc]

/-- A slot that counts in the queue keeps its contents. -/
lemma kept_of_queued (hq : w.isQueued i = true) :
    (w.slots i).payload = (v.slots i).payload ∧ (w.slots i).nextOffset = (v.slots i).nextOffset := by
  have hst : st = statusQueued := by
    rw [h.isQueued_self] at hq
    exact of_decide_eq_true hq
  exact h.kept (by rw [hst]; decide) (by rw [hst]; decide)

/-- A slot that counts in a blob keeps its contents. -/
lemma kept_of_chunk (hc : w.isChunk i = true) :
    (w.slots i).payload = (v.slots i).payload ∧ (w.slots i).nextOffset = (v.slots i).nextOffset := by
  have hst : st = statusOverflow := by
    rw [← h.status]
    exact (of_decide_eq_true hc).2
  exact h.kept (by rw [hst]; decide) (by rw [hst]; decide)

/-- The messages of the nodes, one of which may be the slot. -/
lemma message_of_queued (hq : w.isQueued j = true) : (w.slots j).message = (v.slots j).message := by
  by_cases hj : j = i
  · subst hj
    unfold Slot.message Slot.messageLen
    rw [(h.kept_of_queued hq).1]
  · rw [h.others j hj]

/-- The walk along the queue stays what it was, or its length changes. -/
lemma nodesFrom_eq (hd : d ≠ i)
    (hseen : i ∈ walk (withNode g.idOf v.isQueued i) (fun j => (v.slots j).nextOffset) (g.n + 1)
      (v.slots d).nextOffset → w.isQueued i = v.isQueued i) :
    w.nodesFrom g d = v.nodesFrom g d := by
  unfold nodesFrom
  rw [h.others d hd]
  exact walk_toggle (fun j hj => h.isQueued_of_ne hj) (fun j hj => by simp only [h.others j hj])
    (fun _ hq => (h.kept_of_queued hq).2) hseen

/-- **A node that leaves the chain** shortens what is seen from the dummy. -/
lemma length_nodesFrom_ne (hd : d ≠ i)
    (hseen : i ∈ walk (withNode g.idOf v.isQueued i) (fun j => (v.slots j).nextOffset) (g.n + 1)
      (v.slots d).nextOffset) (hne : w.isQueued i ≠ v.isQueued i) :
    (w.nodesFrom g d).length ≠ (v.nodesFrom g d).length := by
  unfold nodesFrom
  rw [h.others d hd]
  exact length_walk_toggle (fun j hj => h.isQueued_of_ne hj)
    (fun j hj => by simp only [h.others j hj]) hseen hne

/-- Behind the slot itself, if it is no node. -/
lemma nodesFrom_self (hnext : (w.slots i).nextOffset = (v.slots i).nextOffset)
    (hw : w.isQueued i = v.isQueued i) : w.nodesFrom g i = v.nodesFrom g i := by
  unfold nodesFrom
  rw [hnext]
  refine walk_toggle (fun j hj => h.isQueued_of_ne hj) (fun j hj => by simp only [h.others j hj])
    (fun _ _ => hnext) fun _ => hw

end Relabelled

/-- The nodes are queued. -/
lemma isQueued_of_mem (hj : j ∈ v.nodesFrom g d) : v.isQueued j = true := by
  obtain ⟨o, ho⟩ := exists_of_mem_walk hj
  exact (Option.filter_eq_some_iff.mp ho).2

/-- The nodes are slots of the layout. -/
lemma lt_of_mem_nodesFrom (hj : j ∈ v.nodesFrom g d) : j < g.n := by
  obtain ⟨o, ho⟩ := exists_of_mem_walk hj
  exact ((g.idOf_eq_some_iff _ _).mp (Option.filter_eq_some_iff.mp ho).1).1

end View

namespace Db

variable {g : Geometry} {db db' : Db} {d i j st : ℕ}

/-! ### The queue -/

/-- The dummy is the slot at the head, if its status says so. -/
lemma queueDummy_eq_filter (db : Db) :
    db.queueDummy = db.headSlot.filter fun i => (db.slot i).status = statusQueueDummy := by
  unfold queueDummy headSlot
  split_ifs <;> rfl

/-- The slot at the head, read off the view. -/
lemma headSlot_eq (h : (db.view g).Bound g) : db.headSlot = g.idOf db.sb.queueHead := by
  unfold headSlot
  split_ifs with h0
  · rw [h0, g.idOf_zero]
  · exact efSlotAtOffset_eq h _

/-- The pending messages, on the view. -/
lemma pending_eq_nodesFrom (h : (db.view g).Bound g) (hhead : db.headSlot = some d) :
    db.pending = if ((db.view g).slots d).status = statusQueueDummy then
      ((db.view g).nodesFrom g d).map fun j => ((db.view g).slots j).message else [] := by
  have hd : d < g.n := by
    rw [headSlot_eq h] at hhead
    exact ((g.idOf_eq_some_iff _ _).mp hhead).1
  have hmax : db.sb.maxSlots = g.n := h.maxSlots
  unfold pending queueNodes
  rw [queueDummy_eq_filter, hhead, Option.filter_some, slot_eq h.cap hd]
  by_cases hst : ((db.view g).slots d).status = statusQueueDummy
  · rw [if_pos hst, if_pos (decide_eq_true hst)]
    have hnodes : walk db.queuedAt (fun i => (db.slot i).nextOffset) (db.sb.maxSlots + 1)
        (db.slot d).nextOffset = (db.view g).nodesFrom g d := by
      rw [hmax, slot_eq h.cap hd]
      exact g.walk_congr (queuedAt_eq h) fun j hj => by rw [slot_eq h.cap hj]
    simp only [hnodes]
    exact List.map_congr_left fun j hj => by rw [slot_eq h.cap (View.lt_of_mem_nodesFrom hj)]
  · rw [if_neg hst, if_neg fun hc => hst (of_decide_eq_true hc)]
    rfl

/-- Without a head nothing is pending. -/
lemma pending_of_noHead (hhead : db.headSlot = none) : db.pending = [] := by
  unfold pending queueNodes
  rw [queueDummy_eq_filter, hhead]
  rfl

/-- The queue comes to the slot, on the view. -/
lemma seenByQueue_iff (h : (db.view g).Bound g) : db.SeenByQueue i ↔
    ∃ d, d ≠ i ∧ db.headSlot = some d ∧ ((db.view g).slots d).status = statusQueueDummy ∧
      i ∈ walk (withNode g.idOf (db.view g).isQueued i) (fun j => ((db.view g).slots j).nextOffset)
        (g.n + 1) ((db.view g).slots d).nextOffset := by
  have hmax : db.sb.maxSlots = g.n := h.maxSlots
  have hwalk : ∀ d, d < g.n →
      walk (withNode db.efSlotAtOffset (fun j => (db.slot j).status = statusQueued) i)
        (fun j => (db.slot j).nextOffset) (db.sb.maxSlots + 1) (db.slot d).nextOffset =
        walk (withNode g.idOf (db.view g).isQueued i) (fun j => ((db.view g).slots j).nextOffset)
          (g.n + 1) ((db.view g).slots d).nextOffset := by
    intro d hd
    rw [hmax, slot_eq h.cap hd]
    refine g.walk_congr (fun o => ?_) fun j hj => by rw [slot_eq h.cap hj]
    unfold withNode
    rw [efSlotAtOffset_eq h]
    exact g.filter_congr fun j hj => by simp only [slot_eq h.cap hj]; rfl
  have hdummy : ∀ d, db.queueDummy = some d ↔
      db.headSlot = some d ∧ ((db.view g).slots d).status = statusQueueDummy := by
    intro d
    rw [queueDummy_eq_filter, Option.filter_eq_some_iff, decide_eq_true_eq]
    refine and_congr_right fun hhead => ?_
    rw [headSlot_eq h] at hhead
    rw [slot_eq h.cap ((g.idOf_eq_some_iff _ _).mp hhead).1]
  unfold SeenByQueue
  refine exists_congr fun d => and_congr_right fun _ => ?_
  rw [hdummy, and_assoc]
  refine and_congr_right fun hhead => and_congr_right fun _ => ?_
  rw [headSlot_eq h] at hhead
  rw [hwalk d ((g.idOf_eq_some_iff _ _).mp hhead).1]

/-- **The pending messages after a new status**: those before, exactly if the slot counts in the
queue as before. -/
lemma pending_relabelled_iff (h : (db.view g).Bound g) (h' : (db'.view g).Bound g) (hi : i < g.n)
    (hr : (db.view g).Relabelled (db'.view g) i st)
    (hdummy : db.headSlot = some i → ((db.view g).slots i).status ≠ statusQueued) :
    db'.pending = db.pending ↔
      (db.headSlot = some i → ((db.slot i).status = statusQueueDummy ↔ st = statusQueueDummy) ∨
        db.queuedAt (db.slot i).nextOffset = none) ∧
      (db.SeenByQueue i → ((db.slot i).status = statusQueued ↔ st = statusQueued)) := by
  have hsame : db'.headSlot = db.headSlot := by
    rw [headSlot_eq h, headSlot_eq h']
    exact congrArg g.idOf hr.head
  have hcount : (db'.view g).isQueued i = (db.view g).isQueued i ↔
      ((db.slot i).status = statusQueued ↔ st = statusQueued) := by
    rw [hr.isQueued_self, slot_eq h.cap hi]
    unfold View.isQueued
    rw [decide_eq_decide]
    exact iff_comm
  rw [seenByQueue_iff h]
  rcases hhead : db.headSlot with _ | d
  · rw [pending_of_noHead hhead, pending_of_noHead (hsame.trans hhead)]
    simp
  rw [pending_eq_nodesFrom h hhead, pending_eq_nodesFrom h' (hsame.trans hhead)]
  by_cases hdi : d = i
  · -- the slot is at the head of the queue, and is no node
    subst hdi
    have hold : (db.view g).isQueued d = false := decide_eq_false (hdummy hhead)
    have hnone : db.queuedAt (db.slot d).nextOffset = none ↔ (db.view g).nodesFrom g d = [] := by
      rw [queuedAt_eq h, slot_eq h.cap hi]
      unfold View.nodesFrom walk
      change (g.idOf _).filter (db.view g).isQueued = none ↔ _
      rcases (g.idOf ((db.view g).slots d).nextOffset).filter (db.view g).isQueued with _ | j
      · simp
      · simp
    -- behind it, both sides find the same nodes
    have hnew : (if ((db'.view g).slots d).status = statusQueueDummy then
        ((db'.view g).nodesFrom g d).map fun j => ((db'.view g).slots j).message else []) =
          if st = statusQueueDummy then
            ((db.view g).nodesFrom g d).map fun j => ((db.view g).slots j).message else [] := by
      rw [hr.status]
      by_cases hst : st = statusQueueDummy
      · rw [if_pos hst, if_pos hst]
        have hq : (db'.view g).isQueued d = (db.view g).isQueued d := by
          rw [hr.isQueued_self, hold, hst]
          rfl
        have hkept := hr.kept (by rw [hst]; decide) (by rw [hst]; decide)
        have hnodes := hr.nodesFrom_self (g := g) hkept.2 hq
        rw [hnodes]
        refine List.map_congr_left fun j hj => hr.message_of_queued ?_
        rw [← hnodes] at hj
        exact View.isQueued_of_mem hj
      · rw [if_neg hst, if_neg hst]
    rw [hnew, hnone, slot_eq h.cap hi]
    have hother : ¬ ∃ d', d' ≠ d ∧ some d = some d' ∧ ((db.view g).slots d').status = statusQueueDummy ∧
        d ∈ walk (withNode g.idOf (db.view g).isQueued d) (fun j => ((db.view g).slots j).nextOffset)
          (g.n + 1) ((db.view g).slots d').nextOffset := by
      rintro ⟨d', hne, heq, -⟩
      exact hne (Option.some.inj heq).symm
    generalize (db.view g).nodesFrom g d = q at hnone ⊢
    refine Iff.trans ?_ (and_iff_left fun hs => absurd hs hother).symm
    rw [forall_prop_of_true rfl]
    by_cases hd : ((db.view g).slots d).status = statusQueueDummy <;>
      by_cases hst : st = statusQueueDummy
    · rw [if_pos hst, if_pos hd]
      exact iff_of_true rfl (.inl (iff_of_true hd hst))
    · rw [if_neg hst, if_pos hd, eq_comm, List.map_eq_nil_iff]
      exact ⟨.inr, fun h0 => h0.resolve_left fun hiff => hst (hiff.mp hd)⟩
    · rw [if_pos hst, if_neg hd, List.map_eq_nil_iff]
      exact ⟨.inr, fun h0 => h0.resolve_left fun hiff => hd (hiff.mpr hst)⟩
    · rw [if_neg hst, if_neg hd]
      exact iff_of_true rfl (.inl (iff_of_false hd hst))
  · -- the slot at the head is another one
    have hfirst : ¬ (some d = some i) := fun heq => hdi (Option.some.inj heq)
    rw [hr.others d hdi]
    by_cases hdum : ((db.view g).slots d).status = statusQueueDummy
    swap
    · have hno : ¬ ∃ d', d' ≠ i ∧ some d = some d' ∧
          ((db.view g).slots d').status = statusQueueDummy ∧
          i ∈ walk (withNode g.idOf (db.view g).isQueued i) (fun j => ((db.view g).slots j).nextOffset)
            (g.n + 1) ((db.view g).slots d').nextOffset := by
        rintro ⟨d', -, heq, hst, -⟩
        exact hdum (Option.some.inj heq ▸ hst)
      rw [if_neg hdum, if_neg hdum]
      exact iff_of_true rfl ⟨fun heq => absurd heq hfirst, fun hs => absurd hs hno⟩
    rw [if_pos hdum, if_pos hdum]
    constructor
    · intro heq
      refine ⟨fun h0 => absurd h0 hfirst, ?_⟩
      rintro ⟨d', hne, hd', -, hmem⟩
      obtain rfl := Option.some.inj hd'
      by_contra hcon
      refine hr.length_nodesFrom_ne hne hmem (fun hc => hcon (hcount.mp hc)) ?_
      simpa using congrArg List.length heq
    · rintro ⟨-, hseen⟩
      have hnodes := hr.nodesFrom_eq hdi fun hmem =>
        hcount.mpr (hseen ⟨d, hdi, rfl, hdum, hmem⟩)
      rw [hnodes]
      refine List.map_congr_left fun j hj => hr.message_of_queued ?_
      rw [← hnodes] at hj
      exact View.isQueued_of_mem hj

/-! ### The blobs -/

/-- What the status `st` makes of the slot, for the read of a blob. -/
lemma isChunk_relabelled (h : (db.view g).Bound g) (hi : i < g.n)
    (hr : (db.view g).Relabelled (db'.view g) i st)
    (hsealed : st = statusOverflow → (db'.view g).slots i =
      Slot.sealed (db.view g).sb.slotCrc i { (db.view g).slots i with status := st }) :
    (db'.view g).isChunk i = true ↔ db.chunkAs i st := by
  unfold View.isChunk chunkAs
  rw [decide_eq_true_eq, hr.status, and_comm, hr.crc, slot_eq h.cap hi]
  refine and_congr_right fun hst => ?_
  rw [hsealed hst]
  have hsb : (db.view g).sb.slotCrc = db.sb.slotCrc := rfl
  rw [hsb]
  rcases hcrc : db.sb.slotCrc with _ | _
  · exact iff_of_true rfl fun hc => by cases hc
  · have hhas : efSlotStatusHasCrc st = true := by rw [hst]; rfl
    have hiff := @Slot.crcValid_sealed_eq_false_iff i { (db.view g).slots i with status := st }
    rw [forall_prop_of_true rfl, ← Bool.not_eq_false, hiff]
    exact not_congr (and_iff_right hhas)

/-- The blobs at the other slots, and what their heads hold. -/
lemma isBlob_relabelled (h : (db.view g).Bound g) (h' : (db'.view g).Bound g)
    (hl : db'.legacyPayload = db.legacyPayload)
    (hr : (db.view g).Relabelled (db'.view g) i st) {head : ℕ} (hne : head ≠ i) :
    db'.isBlob head = db.isBlob head ∧ (db.isBlob head = true →
      head < g.n ∧ db'.efBlobReadLen (db'.slotPtr head) = db.efBlobReadLen (db.slotPtr head) ∧
        db'.blobInline head = db.blobInline head ∧ db'.chunkCount head = db.chunkCount head) := by
  have hmax : db.sb.maxSlots = g.n := h.maxSlots
  have hmax' : db'.sb.maxSlots = g.n := h'.maxSlots
  by_cases hlt : head < g.n
  swap
  · have hno : ∀ {d : Db}, d.sb.maxSlots = g.n → d.isBlob head = false := by
      intro d hd
      refine decide_eq_false fun hb => hlt ?_
      rw [← hd]
      exact hb.1
    rw [hno hmax, hno hmax']
    exact ⟨rfl, fun hc => by cases hc⟩
  have hslot : db'.slot head = db.slot head := by
    rw [slot_eq h.cap hlt, slot_eq h'.cap hlt, hr.others head hne]
  have hptr : db'.slotPtr head = db.slotPtr head := by rw [slotPtr_eq h.cap, slotPtr_eq h'.cap]
  obtain ⟨hmagic, hlen, hinline, hcount⟩ := blobHead_congr hl hptr hslot
  refine ⟨?_, fun _ => ⟨hlt, hlen, hinline, hcount⟩⟩
  have hcrc : db'.sb.slotCrc = db.sb.slotCrc := hr.crc
  unfold isBlob efSlotHeaderCrcValid
  rw [hslot, hmagic, hmax, hmax', hcrc]

/-- A blob sees a slot on the chain that its head counts. -/
lemma seenByBlob_iff (h : (db.view g).Bound g) : db.SeenByBlob i ↔
    ∃ head, head ≠ i ∧ db.isBlob head = true ∧
      i ∈ walk (withNode g.idOf (db.view g).isChunk i) (fun j => ((db.view g).slots j).nextOffset)
        (db.chunkCount head) ((db.view g).slots head).nextOffset := by
  have hmax : db.sb.maxSlots = g.n := h.maxSlots
  unfold SeenByBlob
  refine exists_congr fun head => and_congr_right fun _ => and_congr_right fun hblob => ?_
  have hlt : head < g.n := by
    rw [← hmax]
    exact (of_decide_eq_true hblob).1
  have hwalk : walk (withNode db.slotIdAt db.isChunk i) (fun j => (db.slot j).nextOffset)
      (db.chunkCount head) (db.slot head).nextOffset =
        walk (withNode g.idOf (db.view g).isChunk i) (fun j => ((db.view g).slots j).nextOffset)
          (db.chunkCount head) ((db.view g).slots head).nextOffset := by
    rw [slot_eq h.cap hlt]
    refine g.walk_congr (fun o => ?_) fun j hj => by rw [slot_eq h.cap hj]
    unfold withNode
    rw [slotIdAt_eq h]
    exact g.filter_congr fun j hj => by rw [isChunk_eq h hj]
  rw [hwalk]

/-- Fewer chunks than the length takes do not hold the blob. -/
lemma lt_readLen_of_chunks {c : ℕ} (hc : c < db.chunkCount i) :
    (db.blobInline i).length + c * db.efBlobOverflowChunkCap < db.efBlobReadLen (db.slotPtr i) := by
  have hcap : 48 ≤ db.efBlobOverflowChunkCap := db.efPayloadCapacity_ge
  unfold chunkCount at hc
  have hmul := (Nat.le_div_iff_mul_le (by omega)).mp (Nat.succ_le_of_lt hc)
  have hsucc : (c + 1) * db.efBlobOverflowChunkCap =
      c * db.efBlobOverflowChunkCap + db.efBlobOverflowChunkCap := by ring
  rw [Nat.succ_eq_add_one, hsucc] at hmul
  rw [length_blobInline]
  omega

/-- The bytes of `n` chunks.
Source: `ef_blob.c`, `ef_blob_overflow_chunk_cap` -/
lemma length_flatMap_chunkBytes (l : List ℕ) :
    (l.flatMap db.chunkBytes).length = l.length * db.efBlobOverflowChunkCap := by
  induction l with
  | nil => simp
  | cons j l ih =>
      have hj : (db.chunkBytes j).length = db.efBlobOverflowChunkCap := length_readBytes _ _ _
      rw [List.flatMap_cons, List.length_append, ih, hj, List.length_cons]
      ring

/-- **The reads after a new status**: those before, exactly if the slot counts in the blobs as
before, wherever one comes to it. -/
lemma reads_relabelled_iff (h : (db.view g).Bound g) (h' : (db'.view g).Bound g)
    (hl : db'.legacyPayload = db.legacyPayload) (hr : (db.view g).Relabelled (db'.view g) i st)
    (hdata : (db'.view g).isChunk i = true → ((db'.view g).slots i).data db.legacyPayload =
      ((db.view g).slots i).data db.legacyPayload) :
    (∀ head, head ≠ i → ∀ bufCap, (db'.efReadBlob head bufCap).2 = (db.efReadBlob head bufCap).2) ↔
      (db.SeenByBlob i → (db'.view g).isChunk i = (db.view g).isChunk i) := by
  have hcap : db'.efBlobOverflowChunkCap = db.efBlobOverflowChunkCap := efPayloadCapacity_congr hl
  have hpos : 48 ≤ db.efBlobOverflowChunkCap := db.efPayloadCapacity_ge
  rw [seenByBlob_iff h]
  constructor
  · rintro hreads ⟨head, hne, hblob, hmem⟩
    obtain ⟨hsame, hhead⟩ := isBlob_relabelled h h' hl hr hne
    obtain ⟨hlt, hlen, hinline, hchunks⟩ := hhead hblob
    by_contra hcon
    -- the two reads of the whole blob have different lengths
    have hread := congrArg (fun r => r.1.length)
      (hreads head hne (db.efBlobReadLen (db.slotPtr head)))
    simp only [efReadBlob_bytes, hsame, hblob, if_true, hlen, hinline, min_self, List.length_take,
      List.length_append, length_flatMap_chunkBytes, hcap] at hread
    have hwalks : (db'.blobChunks head).length ≠ (db.blobChunks head).length := by
      rw [blobChunks_eq h hlt, blobChunks_eq h' hlt, hchunks, hr.others head hne]
      exact length_walk_toggle (fun j hj => hr.isChunk_of_ne hj)
        (fun j hj => by simp only [hr.others j hj]) hmem hcon
    have hle : (db.blobChunks head).length ≤ db.chunkCount head := length_walk_le _ _
    have hle' : (db'.blobChunks head).length ≤ db.chunkCount head := by
      rw [← hchunks]
      exact length_walk_le _ _
    rcases lt_or_gt_of_ne hwalks with hfew | hfew
    · have hshort := lt_readLen_of_chunks (lt_of_lt_of_le hfew hle)
      have hmul := Nat.mul_lt_mul_of_pos_right hfew (by omega : 0 < db.efBlobOverflowChunkCap)
      omega
    · have hshort := lt_readLen_of_chunks (lt_of_lt_of_le hfew hle')
      have hmul := Nat.mul_lt_mul_of_pos_right hfew (by omega : 0 < db.efBlobOverflowChunkCap)
      omega
  · intro hseen head hne bufCap
    obtain ⟨hsame, hhead⟩ := isBlob_relabelled h h' hl hr hne
    rw [efReadBlob_bytes, efReadBlob_bytes, hsame]
    by_cases hblob : db.isBlob head = true
    swap
    · rw [if_neg hblob, if_neg hblob]
    obtain ⟨hlt, hlen, hinline, hchunks⟩ := hhead hblob
    rw [if_pos hblob, if_pos hblob, hlen, hinline]
    have hwalk : db'.blobChunks head = db.blobChunks head := by
      rw [blobChunks_eq h hlt, blobChunks_eq h' hlt, hchunks, hr.others head hne]
      exact walk_toggle (fun j hj => hr.isChunk_of_ne hj)
        (fun j hj => by simp only [hr.others j hj]) (fun _ hc => (hr.kept_of_chunk hc).2)
        fun hmem => hseen ⟨head, hne, hblob, hmem⟩
    have hbytes : ∀ j ∈ db'.blobChunks head, db'.chunkBytes j = db.chunkBytes j := by
      intro j hj
      rw [blobChunks_eq h' hlt] at hj
      obtain ⟨o, ho⟩ := exists_of_mem_walk hj
      obtain ⟨hid, hchunk⟩ := Option.filter_eq_some_iff.mp ho
      have hj := ((g.idOf_eq_some_iff _ _).mp hid).1
      rw [chunkBytes_eq h hj, chunkBytes_eq h' hj, hl]
      by_cases hji : j = i
      · rw [hji] at hchunk ⊢
        exact hdata hchunk
      · rw [hr.others j hji]
    rw [List.flatMap_congr hbytes, hwalk]

/-! ### The calls on a linked slot -/

/-- The status of a linked slot. -/
def LinkStatus (s : ℕ) : Prop := s = statusQueueDummy ∨ s = statusQueued ∨ s = statusOverflow

/-- A linked slot is not FREE. -/
lemma LinkStatus.ne_free {s : ℕ} (h : LinkStatus s) : s ≠ statusFree := by
  rcases h with rfl | rfl | rfl <;> decide

/-- A linked slot is not USED. -/
lemma LinkStatus.ne_used {s : ℕ} (h : LinkStatus s) : s ≠ statusUsed := by
  rcases h with rfl | rfl | rfl <;> decide

/-- A linked slot has one of these statuses, and the one at the head of the queue is no node of
it. -/
lemma LinkedSlot.status (h : (db.view g).Bound g) (hl : db.LinkedSlot i) :
    i < g.n ∧ LinkStatus ((db.view g).slots i).status ∧
      (db.headSlot = some i → ((db.view g).slots i).status ≠ statusQueued) := by
  have hat : ∀ {d}, db.queueDummy = some d → d < g.n ∧ db.headSlot = some d ∧
      ((db.view g).slots d).status = statusQueueDummy := by
    intro d hd
    rw [queueDummy_eq_filter, Option.filter_eq_some_iff, decide_eq_true_eq] at hd
    have hlt := hd.1
    rw [headSlot_eq h] at hlt
    have hlt := ((g.idOf_eq_some_iff _ _).mp hlt).1
    rw [slot_eq h.cap hlt] at hd
    exact ⟨hlt, hd⟩
  rcases hl with hd | hq | ⟨head, -, -, hov⟩
  · obtain ⟨hlt, -, hst⟩ := hat hd
    exact ⟨hlt, .inl hst, fun _ => by rw [hst]; decide⟩
  · unfold queueNodes at hq
    rcases hdum : db.queueDummy with _ | d
    · rw [hdum] at hq
      cases hq
    rw [hdum] at hq
    obtain ⟨-, hhead, hst⟩ := hat hdum
    obtain ⟨o, ho⟩ := exists_of_mem_walk hq
    rw [queuedAt_eq h, Option.filter_eq_some_iff, decide_eq_true_eq] at ho
    refine ⟨((g.idOf_eq_some_iff _ _).mp ho.1).1, .inr (.inl ho.2), fun hi => ?_⟩
    rw [hhead] at hi
    rw [← Option.some.inj hi, hst]
    decide
  · obtain ⟨o, ho⟩ := exists_of_mem_walk hov
    rw [overflowAt_eq h, View.overflowAt_eq_some_iff] at ho
    refine ⟨ho.1, .inr (.inr ho.2.2), fun _ => ?_⟩
    rw [ho.2.2]
    decide

/-- The release of the slot goes ahead: it is accepted, and the lock of the index, which there is
since schema v5, is free. -/
def freeGoes (db : Db) (i : ℕ) : Prop :=
  db.freeAccepts i ∧ (schemaVersion ≤ db.sb.schemaVersion → ¬ db.indexLockBusy)

/-- The slot becomes an overflow slot, and the checksum that it is given lies in the payload: the
layout without slot checksums has no field for it. -/
def sealsData (db : Db) (st : ℕ) : Prop :=
  st = statusOverflow ∧ db.legacyPayload = true ∧ db.sb.slotCrc = true

end Db

namespace SlotCall

/-- The handle after the call. -/
def run (db : Db) (i : ℕ) : SlotCall → Db
  | writePayload data => (db.efWritePayload i data).2
  | writeBlob data => (db.efWriteBlob i data).2
  | setNextOffset nextOffset => (db.efSetNextOffset i nextOffset.toNat).2
  | setStatus status => (db.efSetStatus i status.toNat).2
  | freeSlot => (db.efFreeSlot i).2

/-- The status that the call gives a linked slot, unless it is refused. -/
def gives (db : Db) (i : ℕ) : SlotCall → ℕ → Prop
  | writePayload data, st => st = statusUsed ∧ data.length ≤ 48 ∧
      db.efSlotHeaderCrcValid i (db.slot i) = true
  | setStatus status, st => st = status.toNat ∧ (st = statusFree → db.freeGoes i)
  | freeSlot, st => st = statusFree ∧ db.freeGoes i
  | _, _ => False

/-- The call writes no more than the slot that it is addressed to: a release does not shrink the
index, and a new status brings no checksum into the payload. -/
def StaysInSlot (db : Db) (i : ℕ) (c : SlotCall) : Prop :=
  ∀ st, c.gives db i st → (st = statusFree → ¬ db.removalMoves i) ∧ ¬ db.sealsData st

/-- **The call spares the others**: the handle is read-only, or the status that the call gives the
slot spares them, and nothing else is written. -/
def Spares (db : Db) (i : ℕ) (c : SlotCall) : Prop :=
  db.readonly = false → c.StaysInSlot db i ∧ ∀ st, c.gives db i st → db.SparedBy i st

end SlotCall

namespace Db

variable {g : Geometry} {db db' : Db} {d i j st : ℕ} {c : SlotCall}

/-- What a call does to a linked slot: it is refused, or gives the slot a status. -/
def CallOn (g : Geometry) (db : Db) (i : ℕ) (c : SlotCall) (db' : Db) : Prop :=
  (View.Still (db.view g) (db'.view g) ∧ ∀ st, ¬ c.gives db i st) ∨
    ∃ st, c.gives db i st ∧ (∀ st', c.gives db i st' → st' = st) ∧
      ((st = statusFree → ¬ db.removalMoves i) →
        (db'.view g).Bound g ∧ (db'.view g).sb.schemaVersion = (db.view g).sb.schemaVersion ∧
          (db.view g).Relabelled (db'.view g) i st ∧
          (st = statusOverflow → (db'.view g).slots i =
            Slot.sealed (db.view g).sb.slotCrc i { (db.view g).slots i with status := st }))

/-- A call that is refused. -/
lemma callOn_refused (hno : ∀ st, ¬ c.gives db i st) (e : Err) : CallOn g db i c (db.setError e) :=
  .inl ⟨View.Still.refl _, hno⟩

/-- A call that writes the slot. -/
lemma callOn_write {s : Slot} (h : (db.view g).Bound g) (hg : c.gives db i st)
    (huniq : ∀ st', c.gives db i st' → st' = st) (hview : db'.view g = (db.view g).setSlot i s)
    (hst : s.status = st) (hkept : st ≠ statusFree → st ≠ statusUsed →
      s.payload = ((db.view g).slots i).payload ∧ s.nextOffset = ((db.view g).slots i).nextOffset)
    (hsealed : st = statusOverflow →
      s = Slot.sealed (db.view g).sb.slotCrc i { (db.view g).slots i with status := st }) :
    CallOn g db i c db' := by
  have hself : (db'.view g).slots i = s := by
    rw [hview, View.setSlot_slots, Function.update_self]
  refine .inr ⟨st, hg, huniq, fun _ => ⟨?_, by rw [hview]; rfl, ⟨?_, ?_, fun j hj => ?_, ?_, ?_⟩, ?_⟩⟩
  · rw [hview]
    exact View.bound_setSlot.mpr h
  · rw [hview]
    rfl
  · rw [hview]
    rfl
  · rw [hview, View.setSlot_slots, Function.update_of_ne hj]
  · rw [hself, hst]
  · rw [hself]
    exact hkept
  · rw [hself]
    exact hsealed

/-- Data that is written into a slot leaves its status as it is. -/
lemma view_fillPayload_slot (hi : i < g.n) {data : List UInt8} (hlen : data.length ≤ 48) :
    ∃ s, (db.fillPayload (g.ptr i) data).view g = (db.view g).setSlot i s := by
  have hbound : g.ptr i + 4 ≤ db.efSlotPayloadPtr (g.ptr i) ∧
      db.efSlotPayloadPtr (g.ptr i) + db.efPayloadCapacity = g.ptr i + 56 := by
    unfold efSlotPayloadPtr efPayloadCapacity
    split_ifs <;> omega
  have hge := db.efPayloadCapacity_ge
  unfold fillPayload copyIn zero
  simp only
  generalize db.efSlotPayloadPtr (g.ptr i) = p at hbound ⊢
  generalize db.efPayloadCapacity = cap at hbound hge ⊢
  have hmem : ∀ x, x < g.ptr i ∨ g.ptr i + 64 ≤ x →
      memset (writeBytes db.mem p data) (p + data.length) 0 (cap - data.length) x = db.mem x := by
    intro x hx
    rw [memset_apply_of_outside (by omega), writeBytes_apply_of_outside (by omega)]
  exact ⟨_, view_of_slot_write hi hmem⟩

/-- A payload is never written to a linked slot.
Source: `endfields.c`, `ef_write_payload` -/
lemma efWritePayload_linked (h : (db.view g).Bound g) (hidle : db.txnActive = false) (hi : i < g.n)
    (hst : LinkStatus ((db.view g).slots i).status) (data : List UInt8) :
    CallOn g db i (.writePayload data) (db.efWritePayload i data).2 := by
  unfold efWritePayload
  rw [efDbRequireWrite_eq h.writable]
  simp only
  by_cases hlen : 48 < data.length
  · rw [if_pos hlen]
    have hno : ∀ st, ¬ (SlotCall.writePayload data).gives db i st := fun _ hg => hlen.not_ge hg.2.1
    exact callOn_refused hno _
  have hge := db.efPayloadCapacity_ge
  rw [if_neg hlen, if_neg (by omega), efPeekSlot_of_lt h hi]
  have hslot : (db.setError .ok).slotAt (g.ptr i) = (db.view g).slots i := slotAt_eq db hi
  have hvalid : (db.setError .ok).efSlotHeaderCrcValid i ((db.view g).slots i) =
      db.efSlotHeaderCrcValid i ((db.view g).slots i) := rfl
  have hidle₀ : (db.setError .ok).txnActive = false := hidle
  simp only [hslot, hvalid]
  rw [if_pos hst.ne_free, if_neg hst.ne_free]
  by_cases hbad : efSlotStatusHasCrc ((db.view g).slots i).status = true ∧
      db.efSlotHeaderCrcValid i ((db.view g).slots i) = false
  · rw [if_pos hbad]
    have hno : ∀ st, ¬ (SlotCall.writePayload data).gives db i st := by
      intro st hg
      have hv := hg.2.2
      rw [slot_eq h.cap hi, hbad.2] at hv
      cases hv
    exact callOn_refused hno _
  · rw [if_neg hbad]
    have hv : db.efSlotHeaderCrcValid i (db.slot i) = true := by
      rw [slot_eq h.cap hi]
      by_contra hv
      exact hbad ⟨Slot.hasCrc_of_not_crcValid hv, by simpa using hv⟩
    obtain ⟨s, hfill⟩ := @view_fillPayload_slot g (db.setError .ok) i hi data (by omega)
    refine callOn_write (s := Slot.sealed (db.view g).sb.slotCrc i { s with status := statusUsed }) h
      ⟨rfl, by omega, hv⟩ (fun st' hg => hg.1) ?_ (Slot.sealed_status ..) (fun _ hu => absurd rfl hu)
      fun hc => absurd hc (by decide)
    simp only [hidle₀, Bool.false_eq_true, if_false]
    rw [view_setError, view_efSlotHeaderCrcStore hi, view_setStatus hi, hfill]
    simp

/-- A blob is never written to a linked slot.
Source: `ef_blob.c`, `ef_write_blob` -/
lemma efWriteBlob_linked (h : (db.view g).Bound g) (hi : i < g.n)
    (hst : LinkStatus ((db.view g).slots i).status) (data : List UInt8) :
    CallOn g db i (.writeBlob data) (db.efWriteBlob i data).2 := by
  have hge := db.efPayloadCapacity_ge
  have hno : ∀ st, ¬ (SlotCall.writeBlob data).gives db i st := fun _ hg => hg
  unfold efWriteBlob
  rw [efDbRequireWrite_eq h.writable]
  simp only
  by_cases hlen : 0xFFFFFFFF < data.length
  · rw [if_pos hlen]
    exact callOn_refused hno _
  rw [if_neg hlen, if_neg (by unfold efBlobInlineCapacity efBlobOverflowChunkCap; omega),
    efGetSlot_of_lt h hi]
  by_cases hcrc : ((db.view g).slots i).crcValid (db.view g).sb.slotCrc i = true
  swap
  · rw [if_neg hcrc]
    exact callOn_refused hno _
  have hslot : (db.setError .ok).slotAt (g.ptr i) = (db.view g).slots i := slotAt_eq db hi
  rw [if_pos hcrc]
  simp only [hslot]
  rw [if_neg hst.ne_free]
  simp only [hslot]
  rw [if_pos hst.ne_used]
  exact callOn_refused hno _

/-- A link is written to a linked slot without a look at its status.
Source: `endfields.c`, `ef_set_next_offset` -/
lemma efSetNextOffset_linked (h : (db.view g).Bound g) (hi : i < g.n)
    (hst : LinkStatus ((db.view g).slots i).status) (nextOffset : UInt64) :
    CallOn g db i (.setNextOffset nextOffset) (db.efSetNextOffset i nextOffset.toNat).2 := by
  have hno : ∀ st, ¬ (SlotCall.setNextOffset nextOffset).gives db i st := fun _ hg => hg
  unfold efSetNextOffset
  rw [efDbRequireWrite_eq h.writable]
  simp only
  rw [efGetSlot_of_lt h hi]
  by_cases hcrc : ((db.view g).slots i).crcValid (db.view g).sb.slotCrc i = true
  swap
  · rw [if_neg hcrc]
    exact callOn_refused hno _
  have hslot : (db.setError .ok).slotAt (g.ptr i) = (db.view g).slots i := slotAt_eq db hi
  rw [if_pos hcrc]
  simp only [hslot]
  rw [if_pos hst.ne_used]
  exact callOn_refused hno _

/-- A call that releases the slot, or is refused. -/
lemma efFreeSlot_linked (h : (db.view g).Bound g) (hidle : db.txnActive = false) (hi : i < g.n)
    (hst : LinkStatus ((db.view g).slots i).status)
    (hc : ∀ st, c.gives db i st ↔ st = statusFree ∧ db.freeGoes i)
    (hview : db'.view g = (db.efFreeSlot i).2.view g) : CallOn g db i c db' := by
  by_cases hacc : db.freeAccepts i
  swap
  · refine .inl ⟨?_, fun st hg => hacc ((hc st).mp hg).2.1⟩
    rw [hview, (efFreeSlot_of_not_accepts h hacc).2]
    exact View.Still.refl _
  have h₀ : ((db.setError .ok).view g).Bound g := h
  have hrec : (db.setError .ok).recordFree i ((db.view g).slots i).nextOffset
      ((db.view g).slots i).status = db.setError .ok := by
    have hidle₀ : (db.setError .ok).txnActive = false := hidle
    unfold recordFree
    rw [hidle₀]
    rfl
  have heq : db.efFreeSlot i = (db.setError .ok).efReturnSlotToPool i (g.ptr i) := by
    rw [efFreeSlot_of_accepts h hacc, if_neg hst.ne_used]
    simp only
    rw [hrec]
  obtain ⟨hfst, hsnd⟩ := efReturnSlotToPool_fst (g := g) h₀.writable i (g.ptr i)
  have hbegin : (db.setError .ok).efIndexWriteBegin.1 = .ok ↔
      (schemaVersion ≤ db.sb.schemaVersion → ¬ db.indexLockBusy) :=
    efIndexWriteBegin_ok_iff.trans (imp_congr Iff.rfl (not_congr (indexLockBusy_congr rfl rfl)))
  rw [heq] at hview
  by_cases hgoes : schemaVersion ≤ db.sb.schemaVersion → ¬ db.indexLockBusy
  swap
  · have herr : (db.setError .ok).efIndexWriteBegin.1 ≠ .ok := fun hok => hgoes (hbegin.mp hok)
    refine .inl ⟨?_, fun st hg => hgoes ((hc st).mp hg).2.2⟩
    obtain ⟨-, ⟨-, hstill, -⟩ | ⟨hok, -⟩⟩ := efIndexWriteBegin_spec g (db.setError .ok)
    · rw [hview, hsnd herr]
      exact hstill
    · exact absurd hok herr
  · refine .inr ⟨statusFree, (hc _).mpr ⟨rfl, hacc, hgoes⟩, fun st' hg => ((hc st').mp hg).1,
      fun hstays => ?_⟩
    have hok := hfst.trans (hbegin.mpr hgoes)
    have hmove : ¬ (db.setError .ok).removalMoves i := fun hm =>
      hstays rfl (((SameTable.setError db .ok).removalMoves h.cap i).mp hm)
    have hstill := (efReturnSlotToPool_spec h₀ hi hmove hok).still
    rw [← hview] at hstill
    have hslots : (db'.view g).slots = ((db.view g).pushSlot g i).slots := hstill.slots
    have hsb : (db'.view g).sb = ((db.view g).pushSlot g i).sb := hstill.sb
    refine ⟨hstill.bound (View.bound_pushSlot.mpr h), by rw [hsb]; rfl,
      ⟨by rw [hsb]; rfl, by rw [hsb]; rfl, fun j hj => ?_, ?_, fun h0 => absurd rfl h0⟩,
      fun h0 => absurd h0 (by decide)⟩
    · rw [hslots, View.pushSlot_slots_of_ne hj]
    · rw [hslots, View.pushSlot_slots_self]
      rfl

/-- A status is written to a linked slot.
Source: `endfields.c`, `ef_set_status` -/
lemma efSetStatus_linked (h : (db.view g).Bound g) (hidle : db.txnActive = false) (hi : i < g.n)
    (hst : LinkStatus ((db.view g).slots i).status) (status : UInt32) :
    CallOn g db i (.setStatus status) (db.efSetStatus i status.toNat).2 := by
  have hlt : status.toNat < u32 := status.toNat_lt
  rcases efSetStatus_cases h hi hidle hlt with ⟨hfree, hview⟩ | ⟨-, hprior, -⟩ | ⟨-, hprior, -⟩ |
    ⟨hne, -, hview⟩
  · refine efFreeSlot_linked h hidle hi hst (fun st => ?_) hview
    constructor
    · rintro ⟨rfl, hgoes⟩
      exact ⟨hfree, hgoes hfree⟩
    · rintro ⟨rfl, hgoes⟩
      exact ⟨hfree.symm, fun _ => hgoes⟩
  · exact absurd hprior hst.ne_free
  · exact absurd hprior hst.ne_used
  · refine callOn_write h ⟨rfl, fun h0 => absurd h0 hne⟩ (fun st' hg => hg.1) hview
      (restatused_status _ _ _ hlt) (fun _ _ => ⟨restatused_payload .., restatused_nextOffset ..⟩)
      fun hov => ?_
    unfold restatused
    rw [hov, if_pos (by decide)]
    rfl

/-- **A call on a linked slot** is refused, or gives the slot a status. -/
lemma callOn_run (h : (db.view g).Bound g) (hidle : db.txnActive = false) (hi : i < g.n)
    (hst : LinkStatus ((db.view g).slots i).status) (c : SlotCall) : CallOn g db i c (c.run db i) := by
  cases c with
  | writePayload data => exact efWritePayload_linked h hidle hi hst data
  | writeBlob data => exact efWriteBlob_linked h hi hst data
  | setNextOffset nextOffset => exact efSetNextOffset_linked h hi hst nextOffset
  | setStatus status => exact efSetStatus_linked h hidle hi hst status
  | freeSlot => exact efFreeSlot_linked h hidle hi hst (fun st => Iff.rfl) rfl

/-! ### What the calls do to the others -/

/-- The form of the payload depends on the schema alone. -/
lemma legacyPayload_congr (hs : (db'.view g).sb.schemaVersion = (db.view g).sb.schemaVersion) :
    db'.legacyPayload = db.legacyPayload := by
  have hs' : db'.sb.schemaVersion = db.sb.schemaVersion := hs
  unfold legacyPayload
  rw [hs']

/-- Nothing is lost where no slot and neither the head of the queue differ. -/
lemma othersKept_of_still (h : (db.view g).Bound g) (hi : i < g.n)
    (hdummy : db.headSlot = some i → ((db.view g).slots i).status ≠ statusQueued)
    (hstill : View.Still (db.view g) (db'.view g)) : OthersKept db i db' := by
  have h' := hstill.bound h
  have hl : db'.legacyPayload = db.legacyPayload := legacyPayload_congr (by rw [hstill.sb])
  have hr : (db.view g).Relabelled (db'.view g) i ((db.view g).slots i).status :=
    ⟨by rw [hstill.sb], by rw [hstill.sb], fun j _ => by rw [hstill.slots], by rw [hstill.slots],
      fun _ _ => by rw [hstill.slots]; exact ⟨rfl, rfl⟩⟩
  refine ⟨(pending_relabelled_iff h h' hi hr hdummy).mpr ?_,
    (reads_relabelled_iff h h' hl hr fun _ => by rw [hstill.slots]).mpr fun _ => ?_⟩
  · rw [slot_eq h.cap hi]
    exact ⟨fun _ => .inl Iff.rfl, fun _ => Iff.rfl⟩
  · unfold View.isChunk
    rw [hstill.slots, hstill.sb]

/-- A status spares the others exactly if they are kept. -/
lemma othersKept_relabelled_iff (h : (db.view g).Bound g) (h' : (db'.view g).Bound g)
    (hs : (db'.view g).sb.schemaVersion = (db.view g).sb.schemaVersion) (hi : i < g.n)
    (hdummy : db.headSlot = some i → ((db.view g).slots i).status ≠ statusQueued)
    (hr : (db.view g).Relabelled (db'.view g) i st)
    (hsealed : st = statusOverflow → (db'.view g).slots i =
      Slot.sealed (db.view g).sb.slotCrc i { (db.view g).slots i with status := st })
    (hplain : ¬ db.sealsData st) : OthersKept db i db' ↔ db.SparedBy i st := by
  have hchunk : (db'.view g).isChunk i = (db.view g).isChunk i ↔
      (db.isChunk i = true ↔ db.chunkAs i st) := by
    rw [← isChunk_relabelled h hi hr hsealed, isChunk_eq h hi, Bool.eq_iff_iff]
    exact iff_comm
  -- the bytes of a chunk stay, also where they take in the checksum field
  have hdata : (db'.view g).isChunk i = true → ((db'.view g).slots i).data db.legacyPayload =
      ((db.view g).slots i).data db.legacyPayload := by
    intro hc
    have hst := ((isChunk_relabelled h hi hr hsealed).mp hc).1
    unfold Slot.data
    rw [(hr.kept_of_chunk hc).1]
    by_cases hold : db.legacyPayload = true
    swap
    · rw [if_neg hold, if_neg hold]
    have hoff : (db.view g).sb.slotCrc = false := by
      by_contra hon
      exact hplain ⟨hst, hold, Bool.eq_true_of_not_eq_false hon⟩
    rw [if_pos hold, if_pos hold, hsealed hst, hoff]
    rfl
  unfold OthersKept
  rw [pending_relabelled_iff h h' hi hr hdummy,
    reads_relabelled_iff h h' (legacyPayload_congr hs) hr hdata, hchunk]
  exact ⟨fun ⟨⟨h1, h2⟩, h3⟩ => ⟨h1, h2, h3⟩, fun hsp => ⟨⟨hsp.head, hsp.queue⟩, hsp.blob⟩⟩

/-- A read-only handle refuses every call. -/
lemma run_of_readonly (hro : db.readonly = true) (i : ℕ) (c : SlotCall) :
    c.run db i = db.setError .readonly := by
  cases c <;>
    simp only [SlotCall.run, efWritePayload, efWriteBlob, efSetNextOffset, efSetStatus, efFreeSlot,
      efDbRequireWrite, hro, if_true]

/-- The error word is no part of what the queue and the blobs read. -/
lemma othersKept_setError (db : Db) (i : ℕ) (e : Err) : OthersKept db i (db.setError e) := by
  refine ⟨?_, fun head _ bufCap => ?_⟩
  · have hslot : (db.setError e).slot = db.slot := rfl
    have hat : (db.setError e).efSlotAtOffset = db.efSlotAtOffset := rfl
    have hsb : (db.setError e).sb = db.sb := rfl
    unfold pending queueNodes queueDummy queuedAt
    rw [hslot, hat, hsb]
  · have hpeek : (db.setError e).efPeekSlot head = db.efPeekSlot head := by
      unfold efPeekSlot
      rfl
    unfold efReadBlob efGetSlot
    rw [hpeek]

/-- **A call on a linked slot leaves the others alone** if it spares them, and, where it writes no
more than the slot, only then. -/
theorem othersKept_iff (hm : db.Mapped) (hidle : db.txnActive = false) (hl : db.LinkedSlot i)
    (c : SlotCall) :
    (c.Spares db i → OthersKept db i (c.run db i)) ∧
      (c.StaysInSlot db i → OthersKept db i (c.run db i) → c.Spares db i) := by
  by_cases hw : db.readonly = false
  swap
  · have hro : db.readonly = true := by simpa using hw
    rw [run_of_readonly hro]
    exact ⟨fun _ => othersKept_setError db i _, fun _ _ hw' => absurd hw' hw⟩
  obtain ⟨g, h⟩ := hm.geometry hw
  obtain ⟨hi, hst, hdummy⟩ := LinkedSlot.status h hl
  rcases callOn_run h hidle hi hst c with ⟨hstill, hno⟩ | ⟨st, hg, huniq, hrun⟩
  · exact ⟨fun _ => othersKept_of_still h hi hdummy hstill,
      fun hstays _ _ => ⟨hstays, fun st hg => absurd hg (hno st)⟩⟩
  have hiff : c.StaysInSlot db i → (OthersKept db i (c.run db i) ↔ db.SparedBy i st) := by
    intro hstays
    obtain ⟨hmove, hplain⟩ := hstays st hg
    obtain ⟨h', hs', hr, hsealed⟩ := hrun hmove
    exact othersKept_relabelled_iff h h' hs' hi hdummy hr hsealed hplain
  constructor
  · intro hsp
    obtain ⟨hstays, hspared⟩ := hsp hw
    exact (hiff hstays).mpr (hspared st hg)
  · intro hstays hkept _
    refine ⟨hstays, fun st' hg' => ?_⟩
    obtain rfl := huniq st' hg'
    exact (hiff hstays).mp hkept

/-- One message is pending, at slot `0` behind the dummy at slot `1`, and slots `2` and `3` hold a
blob of fifty bytes. -/
def queueAndBlob : Db := (((newMemory 4 0).efQueuePush [7]).2.efWriteBlob 2 (List.replicate 50 5)).2

/-- The queue's node is given the status that it has. -/
theorem othersKept_of_queued :
    (queueAndBlob.efSetStatus 0 statusQueued).1 = .ok ∧
      OthersKept queueAndBlob 0 ((SlotCall.setStatus 3).run queueAndBlob 0) := by
  obtain ⟨hm, hidle, hnode, hst, hhead, hchunk, hok⟩ : queueAndBlob.Mapped ∧
      queueAndBlob.txnActive = false ∧ 0 ∈ queueAndBlob.queueNodes ∧
      (queueAndBlob.slot 0).status = statusQueued ∧ queueAndBlob.headSlot ≠ some 0 ∧
      queueAndBlob.isChunk 0 = false ∧ (queueAndBlob.efSetStatus 0 statusQueued).1 = .ok := by
    decide +kernel
  refine ⟨hok, (othersKept_iff hm hidle (.inr (.inl hnode)) (.setStatus 3)).1 fun _ => ?_⟩
  have hgives : ∀ st, (SlotCall.setStatus 3).gives queueAndBlob 0 st → st = statusQueued :=
      fun st hg => hg.1
  refine ⟨fun st hg => ?_, fun st hg => ?_⟩
  · rw [hgives st hg]
    exact ⟨fun h0 => absurd h0 (by decide), fun hs => absurd hs.1 (by decide)⟩
  · rw [hgives st hg]
    refine ⟨fun h0 => absurd h0 hhead, fun _ => iff_of_true hst rfl, fun _ => iff_of_false ?_ ?_⟩
    · rw [hchunk]
      exact Bool.false_ne_true
    · exact fun hc => absurd hc.1 (by decide)

/-- A payload write to the queue's node is taken on and loses the message; the release of the
overflow slot is taken on and cuts the blob. -/
theorem linked_slots_not_owned :
    queueAndBlob.Mapped ∧ queueAndBlob.sb.schemaVersion = schemaVersion ∧
      queueAndBlob.txnActive = false ∧ queueAndBlob.LinkedSlot 0 ∧ queueAndBlob.LinkedSlot 3 ∧
      (queueAndBlob.efWritePayload 0 [9]).1 = .ok ∧ queueAndBlob.pending = [[7]] ∧
      ((SlotCall.writePayload [9]).run queueAndBlob 0).pending = [] ∧
      (queueAndBlob.efFreeSlot 3).1 = .ok ∧
      (queueAndBlob.efReadBlob 2 64).2 = (List.replicate 50 5, 50) ∧
      (((SlotCall.freeSlot).run queueAndBlob 3).efReadBlob 2 64).2 = (List.replicate 40 5, 50) ∧
      ¬ OthersKept queueAndBlob 0 ((SlotCall.writePayload [9]).run queueAndBlob 0) ∧
      ¬ OthersKept queueAndBlob 3 ((SlotCall.freeSlot).run queueAndBlob 3) := by
  obtain ⟨hm, hs, hidle, hnode, hused, hchunk, hok, hold, hnew, hok', hread, hcut⟩ :
      queueAndBlob.Mapped ∧ queueAndBlob.sb.schemaVersion = schemaVersion ∧
        queueAndBlob.txnActive = false ∧ 0 ∈ queueAndBlob.queueNodes ∧
        (queueAndBlob.slot 2).status = statusUsed ∧ 3 ∈ queueAndBlob.overflowChain 2 ∧
        (queueAndBlob.efWritePayload 0 [9]).1 = .ok ∧ queueAndBlob.pending = [[7]] ∧
        ((SlotCall.writePayload [9]).run queueAndBlob 0).pending = [] ∧
        (queueAndBlob.efFreeSlot 3).1 = .ok ∧
        (queueAndBlob.efReadBlob 2 64).2 = (List.replicate 50 5, 50) ∧
        (((SlotCall.freeSlot).run queueAndBlob 3).efReadBlob 2 64).2 = (List.replicate 40 5, 50) := by
    decide +kernel
  refine ⟨hm, hs, hidle, .inr (.inl hnode), .inr (.inr ⟨2, by decide, hused, hchunk⟩), hok, hold, hnew,
    hok', hread, hcut, fun h => ?_, fun h => ?_⟩
  · have hkept := h.1
    rw [hold, hnew] at hkept
    cases hkept
  · have hkept := h.2 2 (by decide) 64
    rw [hread, hcut] at hkept
    exact absurd (congrArg (fun r => r.1.length) hkept) (by decide)

end Db

end Endfields.Model
