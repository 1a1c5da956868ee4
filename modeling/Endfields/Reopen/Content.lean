import Endfields.Reopen.V3
import Endfields.Resize.Free
import Endfields.Spec.FreeList

/-!
# What closing and opening again keeps

A close writes the checksum of the superblock; a writable open builds the free list anew and
computes the checksums of the slots again.

* `QueueFormed db`: the queue was never used, or it is a dummy followed by queued slots up to the
  tail.
* `ReopenKeeps db db'`: the same live slots, keys and pending messages, and a free list of exactly
  the free slots.
* **`reopen_keeps`**: outside a transaction, a close and a successful writable open keep the
  database, where the handle has the capacity of its superblock and its slots within its file.
* `reopen_loses_payload`: a handle on a migrated image, which has another capacity.
-/

namespace Endfields.Model

open Endfields.Lib

namespace Db

/-- The queue was never used, or it is a dummy slot followed by `QUEUED` slots up to the tail, each
with a message that fits it. -/
def QueueFormed (db : Db) : Prop :=
  ∃ (g : Geometry) (q : List ℕ), g.cap = db.hashCapacity ∧ g.n = db.sb.maxSlots ∧
    (db.view g).HasQueue g q

/-- The database `db'` has the content of `db`, and a free list of its free slots. -/
structure ReopenKeeps (db db' : Db) : Prop where
  maxSlots : db'.sb.maxSlots = db.sb.maxSlots
  status : ∀ i, i < db.sb.maxSlots → (db'.slot i).status = (db.slot i).status
  live : ∀ i, i < db.sb.maxSlots → (db.slot i).status ≠ statusFree →
    (db'.slot i).payload = (db.slot i).payload ∧ (db'.slot i).nextOffset = (db.slot i).nextOffset
  keys : ∀ k, db'.resolve k = db.resolve k
  formed : db'.QueueFormed
  pending : db'.pending = db.pending
  pop : db.readonly = false → ∀ env bufCap,
    (({ db' with env := env } : Db).efQueuePop bufCap).1 = .ok ↔
      (({ db with env := env } : Db).efQueuePop bufCap).1 = .ok
  popped : db.readonly = false → ∀ env bufCap,
      (({ db with env := env } : Db).efQueuePop bufCap).1 = .ok →
    (({ db' with env := env } : Db).efQueuePop bufCap).2.1 =
      (({ db with env := env } : Db).efQueuePop bufCap).2.1
  free : db'.FreeListExact
  freeCount : db'.sb.freeCount =
    ((List.range db.sb.maxSlots).filter fun i => (db.slot i).status = statusFree).length % u32

variable {g : Geometry} {db db' : Db} {q : List ℕ} {size : ℕ}

/-! ### Closing -/

/-- A close stores the checksum, or leaves the image alone. -/
lemma efClose_mem (db : Db) : db.efClose.mem = db.mem ∨ ∃ c, db.efClose.mem =
    (db.setChecksum c).mem := by
  unfold efClose efDbCommitMeta
  by_cases hr : db.readonly = true
  · rw [if_pos hr]
    exact .inl rfl
  rw [if_neg hr, if_neg hr]
  by_cases hd : db.sbMetaDirty = true
  · rw [if_pos hd]
    obtain ⟨c, hc⟩ := efSbChecksumStore_eq db
    rw [hc]
    exact .inr ⟨c, rfl⟩
  · rw [if_neg hd]
    exact .inl rfl

/-- The superblock that a close leaves. -/
lemma efClose_sb (db : Db) : ∃ c, Superblock.read db.efClose.mem = db.sb.setChecksum c := by
  rcases db.efClose_mem with hm | ⟨c, hm⟩
  · rw [hm]
    exact ⟨db.sb.checksum, rfl⟩
  · rw [hm]
    exact ⟨_, Superblock.read_store_checksum _ _⟩

lemma efClose_high (db : Db) {x : ℕ} (hx : 64 ≤ x) : db.efClose.mem x = db.mem x := by
  rcases db.efClose_mem with hm | ⟨c, hm⟩
  · rw [hm]
  · rw [hm]
    exact store_apply_of_outside (by omega)

/-! ### The handle that is opened -/

/-- A handle on the image that `db` leaves: the same bytes, but for the checksum of the
superblock. -/
structure Handed (g : Geometry) (db db₀ : Db) : Prop where
  bound : (db₀.view g).Bound g
  idle : db₀.txnActive = false
  sb : ∃ c, db₀.sb = db.sb.setChecksum c
  slots : (db₀.view g).slots = (db.view g).slots
  entry : ∀ p, db₀.entry p = db.entry p

/-- A writable open after a close: the free list of a handle on the same image is rebuilt. -/
lemma reopen_eq (hs : db.sb.schemaVersion = schemaVersion)
    (hcap : db.sb.hashCap = db.hashCapacity) (hstate : db.sb.txnState = txnStateNone)
    (hgc : g.cap = db.hashCapacity) (hgn : g.n = db.sb.maxSlots) (hsize : size ≠ 0)
    (hopen : WritableOpen db.efClose.mem size db') :
    ∃ db₀, Handed g db db₀ ∧ db' = db₀.efRebuildFreeList.setError .ok := by
  obtain ⟨c, hsb⟩ := db.efClose_sb
  have hbase := db.slotsBase_eq
  have hg := g.size_lt
  rw [g.size_eq] at hg
  have hub : g.undoBase = db.slotsBase + 64 * db.sb.maxSlots := by
    unfold Geometry.undoBase Geometry.base
    rw [hbase, hgc, hgn]
    omega
  have hs' : (Superblock.read db.efClose.mem).schemaVersion = schemaVersion := by
    rw [hsb]
    exact hs
  have hmax' : (Superblock.read db.efClose.mem).maxSlots = db.sb.maxSlots := by
    rw [hsb]
    rfl
  have hcap' : (Superblock.read db.efClose.mem).hashCap = db.hashCapacity := by
    rw [hsb]
    exact hcap
  have hstate' : (Superblock.read db.efClose.mem).txnState = txnStateNone := by
    rw [hsb]
    exact hstate
  have hv5 : v5Size db.efClose.mem = g.size := by
    unfold v5Size
    rw [hmax', efHashCapacityFromSb_read hs', hcap']
    unfold efExpectedFileSize
    rw [Nat.mod_eq_of_lt (by simp only [undoLogDefaultSlots]; omega), g.size_eq, hub, hbase]
    simp only [undoLogDefaultSlots]
    omega
  have hfits' : 64 + (Superblock.read db.efClose.mem).hashCap * 16 +
      (Superblock.read db.efClose.mem).maxSlots * 64 < u64 := by
    rw [hcap', hmax']
    omega
  obtain ⟨C, b, env, hroom, -, -, rfl⟩ := hopen.stages hs' hfits' hsize
  obtain ⟨hopening, hfit⟩ : (fresh db.efClose.mem (v5Size db.efClose.mem) C b env).Opening ∧
      (fresh db.efClose.mem (v5Size db.efClose.mem) C b env).Fitted := fitted_fresh hs' hfits' rfl hroom
  rw [hv5] at hopening hfit ⊢
  have hhigh : ∀ x, 64 ≤ x → db.efClose.mem x = db.mem x := fun x hx => db.efClose_high hx
  generalize db.efClose.mem = m at hsb hcap' hmax' hstate' hopening hfit hhigh ⊢
  -- no transaction was left, so there is nothing to recover
  have hnone : (fresh m g.size C b env).sb.txnState ≠ txnStateActive := by
    have hst : (fresh m g.size C b env).sb.txnState = txnStateNone := hstate'
    rw [hst]
    norm_num
  rw [efTxnRecoverFromStaleLock_none fun _ => hnone]
  refine ⟨fresh m g.size C b env, ⟨⟨?_, ?_, rfl, ?_⟩, rfl, ⟨c, hsb⟩, ?_, ?_⟩, rfl⟩
  · exact hfit.cap.symm.trans (hcap'.trans hgc.symm)
  · show g.undoBase ≤ g.size
    rw [g.size_eq]
    omega
  · exact hmax'.trans hgn.symm
  · refine Geometry.slots_of_agree fun x hx _ => hhigh x ?_
    have hge := g.base_ge
    omega
  · exact fun p => HashEntry.read_congr fun x hx _ => hhigh x (by omega)

/-! ### The queue -/

/-- A message that is delivered is the first one that is pending. -/
lemma efQueuePop_ok_iff (h : (db.view g).Bound g) (hs : db.sb.schemaVersion = schemaVersion)
    (hidle : db.txnActive = false) (hq : (db.view g).HasQueue g q) (bufCap : ℕ) :
    ((db.efQueuePop bufCap).1 = .ok ↔ db.popUnlinks bufCap ∧ ¬ db.contended.2.indexLockBusy) ∧
      ((db.efQueuePop bufCap).1 = .ok → db.pending.head? = some (db.efQueuePop bufCap).2.1) := by
  have hlog : db.txnActive = true → (db.view g).Ok g := fun hact => by
    rw [hidle] at hact
    cases hact
  unfold efQueuePop
  rw [efDbRequireWrite_eq h.writable]
  simp only
  by_cases hun : db.popUnlinks bufCap
  · refine ⟨?_, fun _ => ?_⟩
    · rw [(efQueueDequeueMpmc_lost h hs hlog hq hun).1]
      exact ⟨fun hfree => ⟨hun, hfree⟩, fun hc => hc.2⟩
    · obtain ⟨d, i, q', db₁, seg, rfl, -, -, heq⟩ := efQueueDequeueMpmc_of_unlinks h hs hlog hq hun
      rw [heq, pending_eq h hq]
      rfl
  · obtain ⟨hne, -⟩ := efQueueDequeueMpmc_of_not h hs hq hun
    exact ⟨⟨fun hok => absurd hok hne, fun hc => absurd hc.1 hun⟩, fun hok => absurd hok hne⟩

/-- A lock attempt uses up one answer of the environment. -/
lemma contention_contended (db : Db) : db.contended.2.env.contention = db.env.contention.tail := by
  unfold contended
  rcases hc : db.env.contention with _ | ⟨c, cs⟩
  · simp [hc]
  · rfl

/-- Two databases with the same pending messages, locks and environment deliver the same message. -/
lemma efQueuePop_congr (h : (db.view g).Bound g) (h' : (db'.view g).Bound g)
    (hs : db.sb.schemaVersion = schemaVersion) (hs' : db'.sb.schemaVersion = schemaVersion)
    (hidle : db.txnActive = false) (hidle' : db'.txnActive = false) (hq : (db.view g).HasQueue g q)
    (hq' : (db'.view g).HasQueue g q) (hpend : db'.pending = db.pending)
    (henv : db'.env.contention = db.env.contention) (hlock : db'.sb.queueLock = db.sb.queueLock)
    (hindex : db'.sb.indexWriteLock = db.sb.indexWriteLock) (bufCap : ℕ) :
    ((db'.efQueuePop bufCap).1 = .ok ↔ (db.efQueuePop bufCap).1 = .ok) ∧
      ((db.efQueuePop bufCap).1 = .ok →
        (db'.efQueuePop bufCap).2.1 = (db.efQueuePop bufCap).2.1) := by
  obtain ⟨hok, hhead⟩ := efQueuePop_ok_iff h hs hidle hq bufCap
  obtain ⟨hok', hhead'⟩ := efQueuePop_ok_iff h' hs' hidle' hq' bufCap
  have hbusy : db'.queueLockBusy ↔ db.queueLockBusy := by
    have hc : db'.contended.1 = db.contended.1 := by
      unfold contended
      rw [henv]
      cases db.env.contention <;> rfl
    unfold queueLockBusy
    rw [hc, hlock]
  have hindexBusy : db'.contended.2.indexLockBusy ↔ db.contended.2.indexLockBusy := by
    refine indexLockBusy_congr ?_ ?_
    · rw [contention_contended, contention_contended, henv]
    · rw [sb_contended, sb_contended]
      exact hindex
  have hiff : (db'.efQueuePop bufCap).1 = .ok ↔ (db.efQueuePop bufCap).1 = .ok := by
    rw [hok, hok']
    unfold popUnlinks
    rw [hbusy, hpend, hindexBusy]
  refine ⟨hiff, fun hsucc => ?_⟩
  have hfirst := (hhead' (hiff.mpr hsucc)).symm.trans ((congrArg List.head? hpend).trans (hhead hsucc))
  exact Option.some.inj hfirst


/-! ### The rebuilt handle -/

/-- A free list along which the free slots are linked is exact. -/
lemma freeListExact_of_linked (h : (db.view g).Bound g) {l : List ℕ}
    (hlinked : Linked g.idOf (fun i => ((db.view g).slots i).nextOffset) db.sb.freeListHead l 0)
    (hnodup : l.Nodup) (hmem : ∀ i, i ∈ l ↔ i < g.n ∧ ((db.view g).slots i).status = statusFree) :
    db.FreeListExact := by
  have hmax : db.sb.maxSlots = g.n := h.maxSlots
  have hlen : l.length ≤ g.n := by
    have hsub := hnodup.subperm fun i hi => List.mem_range.mpr ((hmem i).mp hi).1
    simpa using hsub.length_le
  have hchain : db.freeChain (db.sb.maxSlots + 1) db.sb.freeListHead = l := by
    rw [freeChain_eq h, hmax]
    exact (hlinked.chain g.idOf_zero).walk_eq (by omega)
  unfold FreeListExact
  simp only
  rw [hchain]
  refine ⟨hnodup, fun i hi => ?_⟩
  rw [hmax] at hi
  rw [hmem i, slot_eq h.cap hi]
  exact ⟨fun hc => hc.2, fun hst => ⟨hi, hst⟩⟩

/-- The handle is on the image that `db` shows, with the free list rebuilt. -/
lemma Handed.rebuilt {db₀ : Db} (h : Handed g db db₀) (hs : db.sb.schemaVersion = schemaVersion) :
    ((db₀.efRebuildFreeList.setError .ok).view g).Bound g ∧
      (db₀.view g).Rebuilt g ((db₀.efRebuildFreeList.setError .ok).view g) ∧
      (db₀.efRebuildFreeList.setError .ok).txnActive = false ∧
      (db₀.efRebuildFreeList.setError .ok).sb.schemaVersion = schemaVersion ∧
      ∀ p, p < db₀.hashCapacity → (db₀.efRebuildFreeList.setError .ok).entry p = db.entry p := by
  obtain ⟨c, hsb⟩ := h.sb
  have hs₀ : db₀.sb.schemaVersion = schemaVersion := by
    rw [hsb]
    exact hs
  have hrebuilt := efRebuildFreeList_spec h.bound (by rw [hs₀]; norm_num)
  have hframe := frame_efRebuildFreeList db₀
  have hindex := hframe.index fun hact => by
    rw [h.idle] at hact
    cases hact
  generalize db₀.efRebuildFreeList = db₁ at hrebuilt hframe hindex ⊢
  obtain ⟨c', hsb₁⟩ := hrebuilt.sb
  have hb₁ : (db₁.view g).Bound g := by
    refine h.bound.congr ?_ ?_ ?_ ?_
    · rw [hrebuilt.core]
    · rw [hrebuilt.core]
    · rw [hrebuilt.core]
    · rw [hsb₁]
      rfl
  have hs₁ : db₁.sb.schemaVersion = schemaVersion := by
    rw [sb_eq g, hsb₁]
    exact hs₀
  rw [view_setError]
  exact ⟨hb₁, hrebuilt, hframe.txnActive.trans h.idle, hs₁, fun p hp =>
    (entry_of_index hindex hp).trans (h.entry p)⟩

/-- The queue of a rebuilt image. -/
lemma hasQueue_of_rebuilt {v w : View} (h : v.Rebuilt g w) (hq : v.HasQueue g q) : w.HasQueue g q := by
  obtain ⟨c, hsb⟩ := h.sb
  have hhead : w.sb.queueHead = v.sb.queueHead := by
    rw [hsb]
    rfl
  have htail : w.sb.queueTail = v.sb.queueTail := by
    rw [hsb]
    rfl
  rcases hq with ⟨h0, hnil⟩ | ⟨d, hq⟩
  · exact .inl ⟨hhead.trans h0, hnil⟩
  have hd := h.kept hq.lt (by rw [hq.dummy]; simp)
  have hnode : ∀ i ∈ q, (w.slots i).payload = (v.slots i).payload ∧
      (w.slots i).nextOffset = (v.slots i).nextOffset := fun i hi =>
    h.kept (hq.lt_of_mem hi) (by rw [hq.queued i hi]; simp)
  refine .inr ⟨d, hq.lt, hhead.trans hq.head, (h.status hq.lt).trans hq.dummy, ?_, hq.nodup,
    fun i hi => (h.status (hq.lt_of_mem hi)).trans (hq.queued i hi), fun i hi => ?_,
    htail.trans hq.tail⟩
  · rw [hd.2]
    exact hq.linked.mono fun o a ha ho => ⟨ho, (hnode a ha).2.symm⟩
  · have hfits := hq.fits i hi
    unfold Slot.messageLen at hfits ⊢
    rwa [(hnode i hi).1]

/-- The messages of a rebuilt image. -/
lemma messages_of_rebuilt {v w : View} (h : v.Rebuilt g w) (hq : v.HasQueue g q) :
    (q.map fun i => (w.slots i).message) = q.map fun i => (v.slots i).message := by
  refine List.map_congr_left fun i hi => ?_
  obtain ⟨hin, hst⟩ : i < g.n ∧ (v.slots i).status ≠ statusFree := by
    rcases hq with ⟨-, rfl⟩ | ⟨d, hq⟩
    · cases hi
    · exact ⟨hq.lt_of_mem hi, by rw [hq.queued i hi]; simp⟩
  unfold Slot.message Slot.messageLen
  rw [(h.kept hin hst).1]

/-- The pending messages are read off the slots and the superblock. -/
lemma pending_of_same {db₁ : Db} (hslot : db₁.slot = db.slot) (hsb : db₁.sb = db.sb)
    (hdummy : db₁.queueDummy = db.queueDummy) (hat : db₁.queuedAt = db.queuedAt) :
    db₁.pending = db.pending := by
  unfold pending queueNodes
  rw [hslot, hsb, hdummy, hat]

/-- The handle's right to write does not show in the pending messages. -/
lemma pending_of_readonly (hcap : db.hashCapacity = g.cap) (hfile : g.undoBase ≤ db.fileSize)
    (hmax : db.sb.maxSlots = g.n) (hq : (db.view g).HasQueue g q) :
    db.pending = q.map fun i => ((db.view g).slots i).message := by
  have hsame : ∀ b, ({ db with readonly := b } : Db).pending = db.pending := fun b =>
    pending_of_same rfl rfl rfl rfl
  have hview : ∀ b, (({ db with readonly := b } : Db).view g).HasQueue g q := fun b =>
    hq.congr rfl rfl fun _ _ => rfl
  have hslots : ∀ b, (({ db with readonly := b } : Db).view g).slots = (db.view g).slots := fun _ => rfl
  have hbound : (({ db with readonly := false } : Db).view g).Bound g := ⟨hcap, hfile, rfl, hmax⟩
  rw [← hsame false, ← hslots false]
  exact pending_eq hbound (hview false)

/-- The handle that is closed, and the rebuilt one: the superblock differs in the free list and in
the checksum alone. -/
lemma Handed.sb_rebuilt {db₀ db₁ : Db} (h : Handed g db db₀)
    (hr : (db₀.view g).Rebuilt g (db₁.view g)) :
    db₁.sb.maxSlots = db.sb.maxSlots ∧ db₁.sb.queueLock = db.sb.queueLock ∧
      db₁.sb.indexWriteLock = db.sb.indexWriteLock ∧
      db₁.sb.freeCount = ((db.view g).freeIds g.n).length % u32 := by
  obtain ⟨c, hsb₀⟩ := h.sb
  obtain ⟨c', hsb⟩ := hr.sb
  have hids : (db₀.view g).freeIds g.n = (db.view g).freeIds g.n :=
    View.freeIds_congr fun i _ => by rw [h.slots]
  have hview₀ : (db₀.view g).sb = db₀.sb := rfl
  have hview : (db₁.view g).sb = db₁.sb := rfl
  rw [hview₀, hview, hsb₀, hids] at hsb
  generalize ((db.view g).freeIds g.n).length % u32 = count at hsb ⊢
  rw [hsb]
  exact ⟨rfl, rfl, rfl, rfl⟩

/-- The two databases deliver the same message in every environment. -/
lemma pop_of_rebuilt {db₁ : Db} (h₁ : (db₁.view g).Bound g) (h : (db.view g).Bound g)
    (hs₁ : db₁.sb.schemaVersion = schemaVersion) (hs : db.sb.schemaVersion = schemaVersion)
    (hidle₁ : db₁.txnActive = false) (hidle : db.txnActive = false) (hq₁ : (db₁.view g).HasQueue g q)
    (hq : (db.view g).HasQueue g q) (hpend : db₁.pending = db.pending)
    (hlock : db₁.sb.queueLock = db.sb.queueLock)
    (hindex : db₁.sb.indexWriteLock = db.sb.indexWriteLock) (env : Env) (bufCap : ℕ) :
    ((({ db₁ with env := env } : Db).efQueuePop bufCap).1 = .ok ↔
      (({ db with env := env } : Db).efQueuePop bufCap).1 = .ok) ∧
    ((({ db with env := env } : Db).efQueuePop bufCap).1 = .ok →
      (({ db₁ with env := env } : Db).efQueuePop bufCap).2.1 =
        (({ db with env := env } : Db).efQueuePop bufCap).2.1) := by
  have hb : ∀ db : Db, (db.view g).Bound g → (({ db with env := env } : Db).view g).Bound g :=
    fun db h => h.congr rfl rfl rfl rfl
  have hqueue : ∀ db : Db, (db.view g).HasQueue g q →
      (({ db with env := env } : Db).view g).HasQueue g q := fun db hq =>
    hq.congr rfl rfl fun _ _ => rfl
  have hpending : ∀ db : Db, ({ db with env := env } : Db).pending = db.pending := fun db =>
    pending_of_same rfl rfl rfl rfl
  refine efQueuePop_congr (hb db h) (hb db₁ h₁) hs hs₁ hidle hidle₁ (hqueue db hq) (hqueue db₁ hq₁) ?_
    rfl hlock hindex bufCap
  rw [hpending, hpending, hpend]

/-- **Closing and opening again.** A v5 database outside a transaction, with a well-formed queue,
keeps its live slots, its keys and its pending messages when it is closed and opened for writing,
and its free list holds exactly the free slots, if the handle has the capacity of its superblock and
its slots lie within its file.
Source: `endfields.c`, `ef_close`, `ef_db_init_mapped` and `ef_rebuild_free_list` -/
theorem reopen_keeps (hs : db.sb.schemaVersion = schemaVersion)
    (hstate : db.sb.txnState = txnStateNone) (hidle : db.txnActive = false) (hq : db.QueueFormed)
    (hcap : db.sb.hashCap = db.hashCapacity) (hfile : db.slotsBase + 64 * db.sb.maxSlots ≤ db.fileSize)
    (hsize : size ≠ 0) (hopen : WritableOpen db.efClose.mem size db') : db.ReopenKeeps db' := by
  obtain ⟨g, q, hgc, hgn, hq⟩ := hq
  obtain ⟨db₀, hhand, rfl⟩ := reopen_eq hs hcap hstate hgc hgn hsize hopen
  obtain ⟨hb₁, hrebuilt, hidle₁, hs₁, hentry⟩ := hhand.rebuilt hs
  have hcap₀ : db₀.hashCapacity = g.cap := hhand.bound.cap
  obtain ⟨hmax, hqlock, hilock, hcount⟩ := hhand.sb_rebuilt hrebuilt
  generalize db₀.efRebuildFreeList.setError .ok = db₁
      at hb₁ hrebuilt hidle₁ hs₁ hentry hmax hqlock hilock hcount ⊢
  have hcap₁ : db₁.hashCapacity = g.cap := hb₁.cap
  have hq₀ : (db₀.view g).HasQueue g q := by
    obtain ⟨c, hsb⟩ := hhand.sb
    refine hq.congr ?_ ?_ fun i _ => by rw [hhand.slots]
    · rw [show (db₀.view g).sb = db₀.sb from rfl, hsb]
      rfl
    · rw [show (db₀.view g).sb = db₀.sb from rfl, hsb]
      rfl
  have hq₁ := hasQueue_of_rebuilt hrebuilt hq₀
  have hslots₀ := hhand.slots
  have hslot : ∀ i, i < db.sb.maxSlots → db.slot i = (db₀.view g).slots i := fun i hi => by
    rw [hslots₀]
    exact slot_eq hgc.symm (by omega)
  have hslot₁ : ∀ i, i < db.sb.maxSlots → db₁.slot i = (db₁.view g).slots i := fun i hi =>
    slot_eq hb₁.cap (by omega)
  have hundo : g.undoBase ≤ db.fileSize := by
    have hbase := db.slotsBase_eq
    unfold Geometry.undoBase Geometry.base
    omega
  have hpend : db₁.pending = db.pending := by
    rw [pending_eq hb₁ hq₁, messages_of_rebuilt hrebuilt hq₀, hslots₀,
      pending_of_readonly hgc.symm hundo hgn.symm hq]
  have hpop := fun hw env => pop_of_rebuilt hb₁ ⟨hgc.symm, hundo, hw,
      hgn.symm⟩ hs₁ hs hidle₁ hidle hq₁ hq
    hpend hqlock hilock env
  refine ⟨hmax, fun i hi => ?_, fun i hi hst => ?_, ?_, ⟨g, q, hcap₁.symm, hgn.trans hmax.symm, hq₁⟩,
    hpend, fun hw env bufCap => (hpop hw env bufCap).1, fun hw env bufCap => (hpop hw env bufCap).2,
    freeListExact_of_linked hb₁ hrebuilt.linked (View.nodup_freeIds _ _) hrebuilt.mem_iff, ?_⟩
  · rw [hslot₁ i hi, hslot i hi]
    exact hrebuilt.status (by omega)
  · rw [hslot i hi] at hst ⊢
    rw [hslot₁ i hi]
    exact hrebuilt.kept (by omega) hst
  · refine resolve_of_entries (hcap₁.trans hgc) hmax fun p hp => ?_
    exact hentry p (by rw [hcap₀, hgc]; exact hp)
  · refine hcount.trans (congrArg (fun l : List ℕ => l.length % u32) ?_)
    unfold View.freeIds
    rw [hgn]
    refine List.filter_congr fun i hi => ?_
    rw [hslot i (List.mem_range.mp hi), hslots₀]


/-- A queue of one message, closed and opened again in its buffer. -/
theorem reopen_keeps_of_one : oneQueued.ReopenKeeps
    (efOpenMemoryHash oneQueued.efClose.mem 131296 2 0 false Env.quiet).2 :=
  reopen_keeps (by decide +kernel) (by decide +kernel) (by decide +kernel)
    ⟨layout_oneQueued.geometry, [0], rfl, rfl, .inr ⟨1, queueIs_oneQueued⟩⟩ (by decide +kernel)
    (by decide +kernel) (by norm_num) (.memory 2 0 Env.quiet (by decide +kernel))

/-- The handle on a v3 image whose lock was held, with a payload in its first slot. -/
def migratedLocked : Db :=
  let db := (efOpenMemoryHash (v3Image 1) 2097152 1 4 false Env.quiet).2.efAllocSlot.2.2
  (db.efWritePayload 0 [104, 105]).2

/-- The handle looks for its slots behind 65540 buckets and its superblock names 4: the database is
opened again without the payload. -/
theorem reopen_loses_payload :
    (migratedLocked.sb.schemaVersion = schemaVersion ∧ migratedLocked.sb.txnState = txnStateNone ∧
      migratedLocked.txnActive = false ∧ migratedLocked.QueueFormed) ∧
    (migratedLocked.hashCapacity = 65540 ∧ migratedLocked.sb.hashCap = 4) ∧
    (efOpenMemoryHash migratedLocked.efClose.mem 2097152 1 4 false Env.quiet).1 = .ok ∧
    ¬ migratedLocked.ReopenKeeps
      (efOpenMemoryHash migratedLocked.efClose.mem 2097152 1 4 false Env.quiet).2 := by
  have hq : migratedLocked.QueueFormed :=
    ⟨⟨65540, 1, by decide⟩, [], by decide +kernel, by decide +kernel, .inl ⟨by decide +kernel, rfl⟩⟩
  refine ⟨⟨by decide +kernel, by decide +kernel, by decide +kernel, hq⟩,
    ⟨by decide +kernel, by decide +kernel⟩, by decide +kernel, fun h => ?_⟩
  have hpayload := (h.live 0 (by decide +kernel) (by decide +kernel)).1
  revert hpayload
  decide +kernel

end Db

end Endfields.Model
