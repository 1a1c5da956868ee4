import Endfields.Spec.Put
import Endfields.Spec.Write

/-!
# The end of the undo log

`ef_undo_record_append` reports a full log, and none of its callers looks at the report.

* `Db.MutOp`: the mutating calls of a transaction.
* **Main result** (`mutOp_ne_txnLogFull`): inside a transaction no mutating call returns
  `EF_ERR_TXN_LOG_FULL`, whatever room the log has.
* **Counterexample** (`efAllocSlot_past_full_log`): with a full log an allocation succeeds and
  leaves no record.
-/

namespace Endfields.Model

open Endfields.Lib

namespace Db

/-- The mutating calls. -/
inductive MutOp
  | allocSlot
  | freeSlot (slotId : ℕ)
  | writePayload (slotId : ℕ) (data : List UInt8)
  | setNextOffset (slotId nextOffset : ℕ)
  | setStatus (slotId status : ℕ)
  | indexPut (key : List UInt8) (slotId : ℕ)
  | indexRemove (key : List UInt8)
  | queuePush (data : List UInt8)
  | queuePop (bufCap : ℕ)

/-- The code a call returns, and the handle it leaves. -/
def MutOp.apply (db : Db) : MutOp → Err × Db
  | allocSlot => (db.efAllocSlot.1, db.efAllocSlot.2.2)
  | freeSlot slotId => db.efFreeSlot slotId
  | writePayload slotId data => db.efWritePayload slotId data
  | setNextOffset slotId nextOffset => db.efSetNextOffset slotId nextOffset
  | setStatus slotId status => db.efSetStatus slotId status
  | indexPut key slotId => db.efIndexPut key slotId
  | indexRemove key => db.efIndexRemove key
  | queuePush data => db.efQueuePush data
  | queuePop bufCap => ((db.efQueuePop bufCap).1, (db.efQueuePop bufCap).2.2)

variable (db : Db)

/-! ### The codes of the functions below -/

/-- The check for a writable handle.
Source: `endfields.c`, `ef_db_require_write` -/
lemma efDbRequireWrite_ne_full : db.efDbRequireWrite.1 ≠ .txnLogFull := by
  unfold efDbRequireWrite
  split_ifs <;> simp

/-- The translation of an offset.
Source: `endfields.c`, `ef_offset_to_slot_id` -/
lemma efOffsetToSlotId_ne_full {off : ℕ} {err : Err} (h : db.efOffsetToSlotId off = .error err) :
    err ≠ .txnLogFull := by
  unfold efOffsetToSlotId at h
  split_ifs at h <;> cases h <;> simp

/-- The lock of the index.
Source: `ef_sb_layout.c`, `ef_sb_index_write_lock_acquire` -/
lemma efSbIndexWriteLockAcquire_ne_full : db.efSbIndexWriteLockAcquire.1 ≠ .txnLogFull := by
  unfold efSbIndexWriteLockAcquire
  split_ifs
  · simp
  · simp only
    split_ifs <;> simp

/-- The begin of a write section.
Source: `ef_index.c`, `ef_index_write_begin` -/
lemma efIndexWriteBegin_ne_full : db.efIndexWriteBegin.1 ≠ .txnLogFull := by
  have hl := efSbIndexWriteLockAcquire_ne_full db
  unfold efIndexWriteBegin
  split_ifs
  · simp
  · generalize db.efSbIndexWriteLockAcquire = r at hl ⊢
    obtain ⟨e, db₁⟩ := r
    cases e with
    | ok => simp
    | _ => exact hl

/-- The lock of the queue.
Source: `ef_queue.c`, `ef_queue_lock_acquire` -/
lemma efQueueLockAcquire_ne_full : db.efQueueLockAcquire.1 ≠ .txnLogFull := by
  have hl : db.efSbQueueLockAcquire.1 ≠ .txnLogFull := by
    unfold efSbQueueLockAcquire
    simp only
    split_ifs <;> simp
  unfold efQueueLockAcquire
  generalize db.efSbQueueLockAcquire = r at hl ⊢
  obtain ⟨e, db₁⟩ := r
  cases e with
  | ok => simp
  | _ => exact hl

/-- The head of the free list.
Source: `endfields.c`, `ef_free_list_pop_atomic` -/
lemma efFreeListPopAtomic_ne_full (clear : Bool) : (db.efFreeListPopAtomic clear).1 ≠ .txnLogFull := by
  unfold efFreeListPopAtomic
  simp only
  by_cases hempty : db.sb.freeListHead = 0 ∨ db.sb.freeCount = 0
  · rw [if_pos hempty]
    simp
  rw [if_neg hempty]
  unfold efOffsetToPtr
  by_cases hoff : db.sb.freeListHead = 0 ∨ db.fileSize ≤ db.sb.freeListHead
  · rw [if_pos hoff]
    simp
  rw [if_neg hoff]
  simp only
  rcases hid : (db.setError .ok).efOffsetToSlotId db.sb.freeListHead with err | i
  · exact efOffsetToSlotId_ne_full _ hid
  · simp

/-- An allocation, which drops what its two records report.
Source: `endfields.c`, `ef_alloc_slot_ex` -/
lemma efAllocSlotEx_ne_full (clear : Bool) : (db.efAllocSlotEx clear).1 ≠ .txnLogFull := by
  have hw := efDbRequireWrite_ne_full db
  unfold efAllocSlotEx
  generalize db.efDbRequireWrite = r at hw ⊢
  obtain ⟨e, db₁⟩ := r
  cases e with
  | ok =>
      simp only
      generalize decide (schemaVersion ≤ db₁.sb.schemaVersion) = seqlock
      have hl : (if seqlock = true then db₁.efSbIndexWriteLockAcquire else (.ok, db₁)).1 ≠
          .txnLogFull := by
        split_ifs
        · exact efSbIndexWriteLockAcquire_ne_full db₁
        · simp
      generalize (if seqlock = true then db₁.efSbIndexWriteLockAcquire else (.ok, db₁)) = r at hl ⊢
      obtain ⟨e, db₂⟩ := r
      cases e with
      | ok => exact efFreeListPopAtomic_ne_full db₂ clear
      | _ => exact hl
  | _ => exact hw

/-- A lookup that fails names its own code. -/
lemma efPeekSlot_ne_full {i : ℕ} (h : (db.efPeekSlot i).1 = none) :
    (db.efPeekSlot i).2.lastErr ≠ .txnLogFull := by
  unfold efPeekSlot at h ⊢
  split_ifs at h ⊢
  simp

/-- A slot that is refused.
Source: `endfields.c`, `ef_get_slot` -/
lemma efGetSlot_ne_full {i : ℕ} (h : (db.efGetSlot i).1 = none) :
    (db.efGetSlot i).2.lastErr ≠ .txnLogFull := by
  have hp := efPeekSlot_ne_full db (i := i)
  unfold efGetSlot at h ⊢
  generalize db.efPeekSlot i = r at h hp ⊢
  obtain ⟨_ | p, db₁⟩ := r
  · exact hp rfl
  · simp only at h ⊢
    split_ifs at h ⊢
    simp

/-! ### Removal and release -/

/-- A removal by key hash.
Source: `ef_index.c`, `ef_index_remove_by_hash` -/
lemma efIndexRemoveByHash_ne_full (k : ℕ) : (db.efIndexRemoveByHash k).1 ≠ .txnLogFull := by
  unfold efIndexRemoveByHash
  split_ifs
  · simp
  rcases db.findLoop k db.hashCapacity (efHashHome db.hashCapacity k) with _ | pos
  · simp
  simp only
  rcases shiftLoop (db.hashCapacity * db.hashCapacity + 1) pos db with _ | db₁ <;> simp

/-- A removal by slot, which drops what its record reports.
Source: `ef_index.c`, `ef_index_remove_by_slot` -/
lemma efIndexRemoveBySlot_ne_full (i : ℕ) : (db.efIndexRemoveBySlot i).1 ≠ .txnLogFull := by
  have hb := efIndexWriteBegin_ne_full db
  unfold efIndexRemoveBySlot
  by_cases hro : db.readonly = true
  · rw [if_pos hro]
    simp
  rw [if_neg hro]
  generalize db.efIndexWriteBegin = r at hb ⊢
  obtain ⟨e, db₁⟩ := r
  cases e with
  | ok =>
      simp only
      by_cases h0 : db₁.hashCapacity = 0
      · rw [if_pos h0]
        simp
      rw [if_neg h0]
      by_cases hoff : db₁.efSlotToOffset i = 0
      · rw [if_pos hoff]
        simp
      rw [if_neg hoff]
      rcases db₁.findSlotLoop (db₁.efSlotToOffset i) db₁.hashCapacity with _ | b
      · simp
      have hr := efIndexRemoveByHash_ne_full db₁ (db₁.entry b).keyHash
      simp only
      generalize db₁.efIndexRemoveByHash (db₁.entry b).keyHash = r at hr ⊢
      obtain ⟨e, db₂⟩ := r
      cases e with
      | txnLogFull => exact absurd rfl hr
      | _ => simp
  | _ => exact hb

/-- A slot given back.
Source: `ef_blob.c`, `ef_return_slot_to_pool` -/
lemma efReturnSlotToPool_ne_full (i p : ℕ) : (db.efReturnSlotToPool i p).1 ≠ .txnLogFull := by
  have hr := efIndexRemoveBySlot_ne_full db i
  unfold efReturnSlotToPool
  generalize db.efIndexRemoveBySlot i = r at hr ⊢
  obtain ⟨e, db₁⟩ := r
  cases e with
  | ok => simp [efFreeListPushAtomic]
  | _ => exact hr

/-- The release of a chain.
Source: `ef_blob.c`, `ef_blob_release_chain` -/
lemma releaseChainLoop_ne_full (fuel off : ℕ) (db : Db) :
    (releaseChainLoop fuel off db).1 ≠ .txnLogFull := by
  induction fuel generalizing off db with
  | zero => simp [releaseChainLoop]
  | succ fuel ih =>
      unfold releaseChainLoop
      by_cases h0 : off = 0
      · rw [if_pos h0]
        simp
      rw [if_neg h0]
      rcases hid : db.efOffsetToSlotId off with err | i
      · exact efOffsetToSlotId_ne_full db hid
      simp only
      by_cases hst : (db.slotAt (db.slotPtr i)).status ≠ statusOverflow
      · rw [if_pos hst]
        simp
      rw [if_neg hst]
      have hr := efReturnSlotToPool_ne_full (db.setNext (db.slotPtr i) 0) i (db.slotPtr i)
      generalize (db.setNext (db.slotPtr i) 0).efReturnSlotToPool i (db.slotPtr i) = r at hr ⊢
      obtain ⟨e, db₁⟩ := r
      cases e with
      | ok => exact ih _ _
      | _ => exact hr

/-- A release, which drops what its two records report.
Source: `endfields.c`, `ef_free_slot` -/
lemma efFreeSlot_ne_full (i : ℕ) : (db.efFreeSlot i).1 ≠ .txnLogFull := by
  have hw := efDbRequireWrite_ne_full db
  unfold efFreeSlot
  generalize db.efDbRequireWrite = r at hw ⊢
  obtain ⟨e, db₁⟩ := r
  cases e with
  | ok =>
      have hpeek := efPeekSlot_ne_full db₁ (i := i)
      simp only
      generalize db₁.efPeekSlot i = r at hpeek ⊢
      obtain ⟨_ | p, db₂⟩ := r
      · exact hpeek rfl
      simp only
      split_ifs
      · simp
      · simp
      · simp
      · simp
      · have hr := releaseChainLoop_ne_full (17 *
            ((((db₂.setNext p 0).efSlotHeaderCrcStore i p).sb.maxSlots) + 1))
          (db₂.slotAt p).nextOffset ((db₂.setNext p 0).efSlotHeaderCrcStore i p)
        unfold efBlobReleaseChain
        simp only
        generalize releaseChainLoop _ _ ((db₂.setNext p 0).efSlotHeaderCrcStore i p) = r at hr ⊢
        obtain ⟨e, db₃⟩ := r
        cases e with
        | ok => exact efReturnSlotToPool_ne_full _ i p
        | _ => exact hr
      · exact efReturnSlotToPool_ne_full _ i p
  | _ => exact hw

/-! ### Writes -/

/-- A claim of a free slot.
Source: `endfields.c`, `ef_claim_slot` -/
lemma efClaimSlot_ne_full (i : ℕ) : (db.efClaimSlot i).1 ≠ .txnLogFull := by
  have hloop : ∀ (db : Db) (p off guard : ℕ) (c : Option ℕ),
      (db.unlinkFreeSlotLoop p off guard c).1 ≠ .txnLogFull := by
    intro db p off guard
    induction guard with
    | zero => simp [unlinkFreeSlotLoop]
    | succ guard ih =>
        intro c
        cases c with
        | none => simp [unlinkFreeSlotLoop]
        | some c =>
            unfold unlinkFreeSlotLoop
            split_ifs
            · simp
            · exact ih _
  have hunlink : ∀ db : Db, (db.efUnlinkFreeSlot i).1 ≠ .txnLogFull := by
    intro db
    unfold efUnlinkFreeSlot
    rcases db.efPeekSlot i with ⟨_ | p, db₁⟩
    · simp
    simp only
    split_ifs
    · simp
    · simp
    · exact hloop _ _ _ _ _
  unfold efClaimSlot
  rcases db.efPeekSlot i with ⟨_ | p, db₁⟩
  · simp
  simp only
  split_ifs
  · simp
  · have hu := hunlink db₁
    generalize db₁.efUnlinkFreeSlot i = r at hu ⊢
    obtain ⟨e, db₂⟩ := r
    cases e with
    | ok => simp
    | _ => exact hu

/-- A write, which drops what its record reports.
Source: `endfields.c`, `ef_write_payload` -/
lemma efWritePayload_ne_full (i : ℕ) (data : List UInt8) :
    (db.efWritePayload i data).1 ≠ .txnLogFull := by
  have hw := efDbRequireWrite_ne_full db
  unfold efWritePayload
  generalize db.efDbRequireWrite = r at hw ⊢
  obtain ⟨e, db₁⟩ := r
  cases e with
  | ok =>
      simp only
      split_ifs
      · simp
      · simp
      · rcases db₁.efPeekSlot i with ⟨_ | p, db₂⟩
        · simp
        have hc : (if (db₂.slotAt p).status = statusFree then db₂.efClaimSlot i
            else if efSlotStatusHasCrc (db₂.slotAt p).status = true ∧
              db₂.efSlotHeaderCrcValid i (db₂.slotAt p) = false then
                (.badChecksum, db₂.setError .badChecksum)
            else (.ok, db₂)).1 ≠ .txnLogFull := by
          split_ifs
          · exact efClaimSlot_ne_full db₂ i
          · simp
          · simp
        simp only
        generalize (if (db₂.slotAt p).status = statusFree then db₂.efClaimSlot i
            else if efSlotStatusHasCrc (db₂.slotAt p).status = true ∧
              db₂.efSlotHeaderCrcValid i (db₂.slotAt p) = false then
                (.badChecksum, db₂.setError .badChecksum)
            else (.ok, db₂)) = r at hc ⊢
        obtain ⟨e, db₃⟩ := r
        cases e with
        | ok => simp
        | _ => exact hc
  | _ => exact hw

/-- A link, whose record's report is dropped.
Source: `endfields.c`, `ef_set_next_offset` -/
lemma efSetNextOffset_ne_full (i nx : ℕ) : (db.efSetNextOffset i nx).1 ≠ .txnLogFull := by
  have hw := efDbRequireWrite_ne_full db
  unfold efSetNextOffset
  generalize db.efDbRequireWrite = r at hw ⊢
  obtain ⟨e, db₁⟩ := r
  cases e with
  | ok =>
      have hget := efGetSlot_ne_full db₁ (i := i)
      simp only
      generalize db₁.efGetSlot i = r at hget ⊢
      obtain ⟨_ | p, db₂⟩ := r
      · exact hget rfl
      simp only
      by_cases h1 : (db₂.slotAt p).status ≠ statusUsed
      · rw [if_pos h1]
        simp
      rw [if_neg h1]
      by_cases h2 : db₂.efSlotHasOverflowChain p = true
      · rw [if_pos h2]
        simp
      rw [if_neg h2]
      have hid : ∀ err, (if nx = 0 then .ok 0 else db₂.efOffsetToSlotId nx) = Except.error err →
          err ≠ .txnLogFull := by
        intro err herr
        split_ifs at herr
        exact efOffsetToSlotId_ne_full db₂ herr
      generalize (if nx = 0 then .ok 0 else db₂.efOffsetToSlotId nx) = r at hid ⊢
      rcases r with err | j
      · exact hid err rfl
      · simp
  | _ => exact hw

/-- A status change, whose record's report is dropped.
Source: `endfields.c`, `ef_set_status` -/
lemma efSetStatus_ne_full (i st : ℕ) : (db.efSetStatus i st).1 ≠ .txnLogFull := by
  have hw := efDbRequireWrite_ne_full db
  unfold efSetStatus
  generalize db.efDbRequireWrite = r at hw ⊢
  obtain ⟨e, db₁⟩ := r
  cases e with
  | ok =>
      simp only
      rcases db₁.efPeekSlot i with ⟨_ | p, db₂⟩
      · simp
      simp only
      split_ifs
      · simp
      · exact efFreeSlot_ne_full db₂ i
      · exact efClaimSlot_ne_full db₂ i
      all_goals simp
  | _ => exact hw

/-! ### The index -/

/-- An insertion under the lock, whose record's report is dropped.
Source: `ef_index.c`, `ef_index_put` -/
lemma indexPutLocked_ne_full (k off : ℕ) : (db.indexPutLocked k off).1 ≠ .txnLogFull := by
  have hloop : ∀ (fuel i home : ℕ) (e : HashEntry) (db : Db),
      (putEntryLoop k off fuel i home e db).1 ≠ .txnLogFull := by
    intro fuel
    induction fuel with
    | zero => simp [putEntryLoop]
    | succ fuel ih =>
        intro i home e db
        unfold putEntryLoop
        simp only
        split_ifs
        · simp
        · simp
        · simp
        · exact ih _ _ _ _
        · exact ih _ _ _ _
  have hput : (db.efIndexPutEntry k off).1 ≠ .txnLogFull := by
    unfold efIndexPutEntry
    split_ifs
    · simp
    · simp
    · exact hloop _ _ _ _ _
  unfold indexPutLocked
  generalize db.efIndexPutEntry k off = r at hput ⊢
  obtain ⟨e, added, db₁⟩ := r
  cases e with
  | ok =>
      simp only
      split_ifs <;> simp
  | _ => exact hput

/-- Inside a transaction an insertion is refused where it would have to grow. -/
lemma efIndexPut_ne_full (hact : db.txnActive = true) (key : List UInt8) (s : ℕ) :
    (db.efIndexPut key s).1 ≠ .txnLogFull := by
  have hb := efIndexWriteBegin_ne_full db
  have hix := index_efIndexWriteBegin db
  unfold efIndexPut indexPutAt
  simp only
  generalize efKeyHash (cString key) = k
  by_cases hro : db.readonly = true
  · rw [if_pos hro]
    simp
  rw [if_neg hro]
  by_cases hbusy : db.txnActive = true ∧ db.hashCapacity ≠ 0 ∧
      efIndexNeedsGrow db.hashEntryCount db.hashCapacity = true ∧
      (db.efIndexFindEntryUnlocked k).toOption.isNone = true
  · rw [if_pos hbusy]
    simp
  rw [if_neg hbusy]
  generalize db.efIndexWriteBegin = r at hb hix ⊢
  obtain ⟨e, db₁⟩ := r
  have hcount : db₁.hashEntryCount = db.hashEntryCount := congrArg Index.count hix
  have hgrow : ¬ (db₁.hashCapacity ≠ 0 ∧
      efIndexNeedsGrow db₁.hashEntryCount db₁.hashCapacity = true ∧
      (db₁.efIndexFindEntryUnlocked k).toOption.isNone = true) := by
    rw [hashCapacity_of_index hix, hcount, efIndexFindEntryUnlocked_of_index hix]
    exact fun hg => hbusy ⟨hact, hg⟩
  cases e with
  | ok =>
      simp only
      by_cases hoff : db₁.efSlotToOffset s = 0
      · rw [if_pos hoff]
        simp
      rw [if_neg hoff, if_neg hgrow]
      exact indexPutLocked_ne_full db₁ k _
  | _ => exact hb

/-- A removal by key, whose record's report is dropped.
Source: `ef_index.c`, `ef_index_remove` -/
lemma efIndexRemove_ne_full (key : List UInt8) : (db.efIndexRemove key).1 ≠ .txnLogFull := by
  have hb := efIndexWriteBegin_ne_full db
  unfold efIndexRemove indexRemoveAt
  by_cases hro : db.readonly = true
  · rw [if_pos hro]
    simp
  rw [if_neg hro]
  generalize db.efIndexWriteBegin = r at hb ⊢
  obtain ⟨e, db₁⟩ := r
  cases e with
  | ok =>
      simp only
      by_cases h0 : db₁.hashCapacity = 0
      · rw [if_pos h0]
        simp
      rw [if_neg h0]
      split_ifs
      · simp
      · have hr := efIndexRemoveByHash_ne_full db₁ (efKeyHash (cString key))
        generalize db₁.efIndexRemoveByHash (efKeyHash (cString key)) = r at hr ⊢
        obtain ⟨e, db₂⟩ := r
        cases e with
        | ok => simp
        | _ => exact hr
  | _ => exact hb

/-! ### The queue -/

/-- Inside a transaction the database does not grow. -/
lemma efAllocEx_ne_full (hact : db.txnActive = true) (clear : Bool) :
    (db.efAllocEx clear).1 ≠ .txnLogFull := by
  have ha := efAllocSlotEx_ne_full db clear
  have hf := (frame_efAllocSlotEx db clear).txnActive
  unfold efAllocEx
  generalize db.efAllocSlotEx clear = r at ha hf ⊢
  obtain ⟨e, i, db₁⟩ := r
  have hact₁ : db₁.txnActive = true := hf.trans hact
  cases e with
  | slotFull =>
      have hgrow : db₁.efGrow ((db₁.sb.maxSlots + 1) % u64) =
          (.readonly, db₁.setError .readonly) ∨
          db₁.efGrow ((db₁.sb.maxSlots + 1) % u64) = (.grow, db₁.setError .grow) := by
        unfold efGrow efDbRequireWrite
        by_cases hro : db₁.readonly = true
        · rw [if_pos hro]
          exact .inl rfl
        · rw [if_neg hro]
          simp only
          rw [if_pos hact₁]
          exact .inr rfl
      simp only
      rcases hgrow with hg | hg <;> rw [hg] <;> simp
  | _ => exact ha

/-- The dummy of the queue.
Source: `ef_queue.c`, `ef_queue_dummy_offset` -/
lemma efQueueDummyOffset_ne_full : db.efQueueDummyOffset.1 ≠ .txnLogFull := by
  have ha := efAllocSlotEx_ne_full db true
  unfold efQueueDummyOffset
  refine iteInduction (motive := fun r : Err × ℕ × Db => r.1 ≠ .txnLogFull) (fun _ => by simp)
    fun _ => ?_
  unfold efAllocSlot
  generalize db.efAllocSlotEx true = r at ha ⊢
  obtain ⟨e, i, db₁⟩ := r
  cases e with
  | ok =>
      have hpeek := efPeekSlot_ne_full db₁ (i := i)
      simp only
      generalize db₁.efPeekSlot i = r at hpeek ⊢
      obtain ⟨_ | p, db₂⟩ := r
      · exact hpeek rfl
      · simp only
        split_ifs <;> simp
  | _ => exact ha

/-- A node is appended to the queue.
Source: `ef_queue.c`, `ef_queue_enqueue_mpmc` -/
lemma efQueueEnqueueMpmc_ne_full (off i : ℕ) : (db.efQueueEnqueueMpmc off i).1 ≠ .txnLogFull := by
  have hd := efQueueDummyOffset_ne_full db
  unfold efQueueEnqueueMpmc
  generalize db.efQueueDummyOffset = r at hd ⊢
  obtain ⟨e, d, db₁⟩ := r
  cases e with
  | ok =>
      simp only
      rcases db₁.efSlotAtOffset off with _ | node
      · simp
      simp only
      generalize ((db₁.setNext (db₁.slotPtr node) 0).setStatus (db₁.slotPtr node)
        statusQueued).efSlotHeaderCrcStore i (db₁.slotPtr node) = db₂
      have hl := efQueueLockAcquire_ne_full db₂
      generalize db₂.efQueueLockAcquire = r at hl ⊢
      obtain ⟨e, db₃⟩ := r
      cases e with
      | ok =>
          simp only
          rcases db₃.efSlotAtOffset db₃.sb.queueTail with _ | tail <;> simp
      | _ => exact hl
  | _ => exact hd

/-- A push, which drops what its record reports.
Source: `ef_queue.c`, `ef_queue_push` -/
lemma efQueuePush_ne_full (hact : db.txnActive = true) (data : List UInt8) :
    (db.efQueuePush data).1 ≠ .txnLogFull := by
  have hw := efDbRequireWrite_ne_full db
  have hf := (frame_efDbRequireWrite db).txnActive
  unfold efQueuePush
  generalize db.efDbRequireWrite = r at hw hf ⊢
  obtain ⟨e, db₁⟩ := r
  have hact₁ : db₁.txnActive = true := hf.trans hact
  cases e with
  | ok =>
      simp only
      split_ifs
      · simp
      · have ha := efAllocEx_ne_full db₁ hact₁ false
        generalize db₁.efAllocEx false = r at ha ⊢
        obtain ⟨e, i, db₂⟩ := r
        cases e with
        | ok =>
            simp only
            rcases db₂.efPeekSlot i with ⟨_ | p, db₃⟩
            · simp
            simp only
            generalize db₃.copyIn (db₃.efSlotPayloadPtr p) (UInt8.ofNat data.length :: data) = db₄
            have hq := efQueueEnqueueMpmc_ne_full db₄ (db₄.efSlotToOffset i) i
            generalize db₄.efQueueEnqueueMpmc (db₄.efSlotToOffset i) i = r at hq ⊢
            obtain ⟨e, db₅⟩ := r
            cases e with
            | ok => simp
            | _ => exact hq
        | _ => exact ha
  | _ => exact hw

/-- A pop, which drops what its record reports.
Source: `ef_queue.c`, `ef_queue_pop` -/
lemma efQueuePop_ne_full (bufCap : ℕ) : (db.efQueuePop bufCap).1 ≠ .txnLogFull := by
  have hw := efDbRequireWrite_ne_full db
  unfold efQueuePop
  generalize db.efDbRequireWrite = r at hw ⊢
  obtain ⟨e, db₁⟩ := r
  cases e with
  | ok =>
      have hl := efQueueLockAcquire_ne_full db₁
      simp only
      unfold efQueueDequeueMpmc
      simp only
      by_cases h0 : db₁.sb.queueHead = 0
      · rw [if_pos h0]
        simp
      rw [if_neg h0]
      generalize db₁.efQueueLockAcquire = r at hl ⊢
      obtain ⟨e, db₂⟩ := r
      cases e with
      | ok =>
          simp only
          rcases Option.filter _ (db₂.efSlotAtOffset db₁.sb.queueHead) with _ | dummy
          · simp
          simp only
          by_cases h1 : (db₂.slotAt (db₂.slotPtr dummy)).nextOffset = 0
          · rw [if_pos h1]
            simp
          rw [if_neg h1]
          rcases Option.filter _ (db₂.efSlotAtOffset (db₂.slotAt (db₂.slotPtr dummy)).nextOffset) with
            _ | first
          · simp
          simp only
          by_cases h2 : bufCap < (db₂.mem (db₂.efSlotPayloadPtr (db₂.slotPtr first))).toNat + 1
          · rw [if_pos h2]
            simp
          rw [if_neg h2]
          exact efReturnSlotToPool_ne_full _ first _
      | _ => exact hl
  | _ => exact hw

/-! ### A full log -/

/-- `n` calls of `ef_set_status` on slot 0, each of which leaves a record. -/
def fillLog : ℕ → Db → Db
  | 0, db => db
  | n + 1, db => fillLog n (db.efSetStatus 0 statusOverflow).2

variable {g : Geometry} {db}

/-- Each of the calls leaves one record, and changes slot 0 alone. -/
lemma fillLog_spec (n : ℕ) (h : (db.view g).Ok g) (hact : db.txnActive = true) (hn : 0 < g.n)
    {rs : List SlotRec} (hlog : (db.view g).LogIs g rs) (hroom : rs.length + n ≤ undoLogDefaultSlots) :
    ∃ rs', (fillLog n db).Shows g ((fillLog n db).view g) rs' ∧ rs'.length = rs.length + n ∧
      (fillLog n db).core = db.core ∧ (fillLog n db).sb = db.sb ∧
      ∀ i, i ≠ 0 → ((fillLog n db).view g).slots i = (db.view g).slots i := by
  induction n generalizing db rs with
  | zero => exact ⟨rs, shows_of_log hlog, rfl, rfl, rfl, fun _ _ => rfl⟩
  | succ n ih =>
      unfold fillLog
      rcases efSetStatus_spec h hact hlog 0 statusOverflow (by decide)
        (fun _ hu => absurd hu (by decide)) with ⟨-, hu⟩ | ⟨-, -, -, hshows⟩
      · exact absurd (hu hn) (by decide)
      have hs := hshows (by omega)
      generalize (db.efSetStatus 0 statusOverflow).2 = db₁ at hs ⊢
      have hcore : db₁.core = db.core := hs.core
      have hsb : db₁.sb = db.sb := hs.sb
      have hok : (db₁.view g).Ok g :=
        h.congr hcore (congrArg Superblock.maxSlots hsb) (congrArg Superblock.schemaVersion hsb)
      have hslots : ∀ i, i ≠ 0 → (db₁.view g).slots i = (db.view g).slots i := by
        intro i hi
        rw [hs.slots]
        exact Function.update_of_ne hi _ _
      obtain ⟨rs', hs', hlen, hcore', hsb', hslots'⟩ := ih hok
        ((congrArg Core.txnActive hcore).trans hact) hs.log
        (by simp only [List.length_append, List.length_singleton]; omega)
      refine ⟨rs', hs', ?_, hcore'.trans hcore, hsb'.trans hsb, fun i hi => ?_⟩
      · rw [hlen, List.length_append, List.length_singleton]
        omega
      · rw [hslots' i hi, hslots i hi]

/-- After `n` records that fill the log there is no room for another one, and an allocation
succeeds. -/
lemma efAllocSlot_of_filled {n : ℕ} (hn : n = undoLogDefaultSlots) (h : (db.view g).Ok g)
    (hbegin : db.efTxnBegin.1 = .ok) (hq : db.env.contention = []) (hlock : db.sb.indexWriteLock = 0)
    {i : ℕ} (hhead : (db.view g).freeHead g = some i) (hi : i ≠ 0) :
    let full := fillLog n db.efTxnBegin.2
    full.sb.schemaVersion = schemaVersion ∧ full.txnActive = true ∧ ¬ full.logRoom 1 ∧
      full.efAllocSlot.1 = .ok ∧ full.slot i = db.slot i ∧
      (full.efAllocSlot.2.2.slot i).status = statusUsed := by
  obtain ⟨-, seg, -, hview₁⟩ := efTxnBegin_of_ok h hbegin
  have hlog₁ := logging_of_begin h hbegin
  have hlt : i < g.n := View.freeHead_lt hhead
  generalize db.efTxnBegin.2 = db₁ at hview₁ hlog₁ ⊢
  obtain ⟨rs, hs, hlen, hcore, hsb, hslots⟩ := fillLog_spec n hlog₁.ok hlog₁.active (by omega)
    (View.LogIs.nil hlog₁.holds) (by simp [hn])
  simp only
  generalize fillLog n db₁ = full at hs hcore hsb hslots ⊢
  have hok : (full.view g).Ok g := hlog₁.ok.congr hcore (congrArg Superblock.maxSlots hsb)
    (congrArg Superblock.schemaVersion hsb)
  have hcore₁ : db₁.core = ((db.view g).tick.begun seg).core := congrArg View.core hview₁
  have hsb₁ : full.sb = ((db.view g).tick.begun seg).sb := hsb.trans (congrArg View.sb hview₁)
  have hquiet : full.env.contention = [] := by
    have hc : full.core.contention = db.env.contention.tail := by
      rw [hcore, hcore₁]
      rfl
    rw [hq] at hc
    exact hc
  have hlock' : (full.view g).sb.indexWriteLock = 0 :=
    (congrArg Superblock.indexWriteLock hsb₁).trans hlock
  have hhead' : (full.view g).freeHead g = some i := by
    have hv : (full.view g).sb = ((db.view g).tick.begun seg).sb := hsb₁
    unfold View.freeHead at hhead ⊢
    rw [hv]
    exact hhead
  have hslot : (full.view g).slots i = (db.view g).slots i := by
    rw [hslots i hi, hview₁]
    rfl
  have hfull : ¬ full.logRoom 1 := by
    rw [logRoom_iff hok hs.log, hlen, hn]
    simp
  refine ⟨hok.schema, (congrArg Core.txnActive hcore).trans hlog₁.active, hfull, ?_⟩
  have hcap := hok.cap
  rcases efAllocSlotEx_cases hok true with
    ⟨-, -, hnone⟩ | ⟨j, seg', hj, -, halloc, -, hview₂, -, -⟩
  · rw [hhead'] at hnone
    cases hnone hlock' hquiet
  rw [hhead'] at hj
  cases hj
  have hcap₂ : (full.efAllocSlot.2.2.view g).core.hashCapacity = g.cap := by
    unfold efAllocSlot
    rw [hview₂]
    exact hcap
  refine ⟨halloc, ?_, ?_⟩
  · rw [slot_eq hcap hlt, slot_eq h.cap hlt]
    exact hslot
  · rw [slot_eq hcap₂ hlt]
    unfold efAllocSlot
    rw [hview₂]
    simp [View.popSlot, View.allocated]

/-! ### The report is lost -/

/-- **No mutating call reports a full log.**
Source: `endfields.c`, `ef_alloc_slot_ex` and the other callers of `ef_txn.c`,
`ef_txn_record_slot_status` -/
theorem mutOp_ne_txnLogFull (hact : db.txnActive = true) (op : MutOp) :
    (op.apply db).1 ≠ .txnLogFull := by
  cases op with
  | allocSlot => exact efAllocSlotEx_ne_full db true
  | freeSlot i => exact efFreeSlot_ne_full db i
  | writePayload i data => exact efWritePayload_ne_full db i data
  | setNextOffset i nx => exact efSetNextOffset_ne_full db i nx
  | setStatus i st => exact efSetStatus_ne_full db i st
  | indexPut key i => exact efIndexPut_ne_full db hact key i
  | indexRemove key => exact efIndexRemove_ne_full db key
  | queuePush data => exact efQueuePush_ne_full db hact data
  | queuePop bufCap => exact efQueuePop_ne_full db bufCap

/-- A new database of two slots, the first of them allocated. -/
def oneOfTwo : Db := (newMemory 2 0).efAllocSlot.2.2

/-- The handle has the layout that an open gives it. -/
lemma oneOfTwo_layout : oneOfTwo.Layout := by decide +kernel

/-- Slot 1 is at the head of the free list. -/
lemma oneOfTwo_head : (oneOfTwo.view oneOfTwo_layout.geometry).freeHead oneOfTwo_layout.geometry =
    some 1 := by
  decide +kernel

/-- After 4096 calls of `ef_set_status` in a transaction the log has no room for another record;
neither a write, which needs one, nor an allocation, which needs two, reports that. -/
theorem mutOp_ne_txnLogFull_of_full :
    let full := fillLog undoLogDefaultSlots oneOfTwo.efTxnBegin.2
    ¬ full.logRoom 1 ∧ ((MutOp.writePayload 0 [7]).apply full).1 ≠ .txnLogFull ∧
      (MutOp.allocSlot.apply full).1 ≠ .txnLogFull := by
  obtain ⟨-, hact, hfull, -⟩ := efAllocSlot_of_filled rfl oneOfTwo_layout.ok (by decide +kernel)
    (by decide +kernel) (by decide +kernel) oneOfTwo_head (by decide)
  exact ⟨hfull, mutOp_ne_txnLogFull hact _, mutOp_ne_txnLogFull hact _⟩

/-- After 4096 calls of `ef_set_status` in a transaction the log has no room for another record; an
allocation, which needs two, returns `EF_OK` and takes slot 1. -/
theorem efAllocSlot_past_full_log :
    let full := fillLog undoLogDefaultSlots oneOfTwo.efTxnBegin.2
    full.sb.schemaVersion = schemaVersion ∧ full.txnActive = true ∧ ¬ full.logRoom 1 ∧
      full.efAllocSlot.1 = .ok ∧ full.slot 1 = oneOfTwo.slot 1 ∧
      (full.efAllocSlot.2.2.slot 1).status = statusUsed ∧
      (oneOfTwo.slot 1).status = statusFree := by
  obtain ⟨hschema, hact, hfull, hok, hslot, hused⟩ := efAllocSlot_of_filled rfl oneOfTwo_layout.ok
    (by decide +kernel) (by decide +kernel) (by decide +kernel) oneOfTwo_head (by decide)
  exact ⟨hschema, hact, hfull, hok, hslot, hused, by decide +kernel⟩

end Db

end Endfields.Model
