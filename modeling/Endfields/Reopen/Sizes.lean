import Endfields.Pool.Alloc
import Endfields.Reopen.Repeat

/-!
# The sizes of a layout

Sizes are computed in 64-bit arithmetic, from slot counts that a caller or an image names, with no
check for an overflow.

* `exactSize n cap`: the size of the v5 layout, computed without a bound.
* `SizesRight n cap fileSize v5 room`: what the sizes are supposed to be.
* **`Db.sizes_right_iff`**: for each of the calls that accept sizes, when they are: a new database,
  an image in a buffer, the validation of a superblock, and growth.
-/

namespace Endfields.Model

open Endfields.Lib

/-- The size of the v5 layout, computed without a bound. -/
def exactSize (n cap : ℕ) : ℕ := 64 + 16 * cap + 64 * n + undoLogBytes undoLogDefaultSlots

/-- The size of a v5 image, written out. -/
lemma exactSize_eq (n cap : ℕ) : exactSize n cap = 64 + 16 * cap + 64 * n + 131104 := rfl

/-- The computed size is the exact one, as long as that does not overflow. -/
lemma efExpectedFileSize_exact (n cap : ℕ) :
    efExpectedFileSize n cap undoLogDefaultSlots = exactSize n cap % u64 := by
  unfold efExpectedFileSize exactSize
  simp only [undoLogBytes]
  congr 1
  omega

namespace Db

variable {m : Mem} {size n cap F : ℕ} {env : Env} {db db' : Db}

/-- The stores that end a recovery change bytes only. -/
lemma efSbTxnLockRelease_eq (db : Db) (state : ℕ) :
    ∃ m, (db.efSbTxnStateStore state).efSbTxnLockRelease = db.withMem m := by
  unfold efSbTxnStateStore
  by_cases h : db.sb.schemaVersion < schemaVersion
  · rw [if_pos h]
    exact ⟨db.mem, if_pos h⟩
  · rw [if_neg h]
    unfold efSbTxnLockRelease
    by_cases h' : (db.setTxnState state).sb.schemaVersion < schemaVersion
    · rw [if_pos h']
      exact ⟨_, rfl⟩
    · rw [if_neg h']
      exact ⟨_, rfl⟩

/-- The mapping is not resized by a recovery. -/
lemma mapCapacity_recover (db : Db) :
    db.efTxnRecoverFromStaleLock.2.mapCapacity = db.mapCapacity ∧
      db.efTxnRecoverFromStaleLock.2.backend = db.backend := by
  unfold efTxnRecoverFromStaleLock
  by_cases hs : db.sb.schemaVersion < schemaVersion
  · rw [if_pos hs]
    exact ⟨rfl, rfl⟩
  rw [if_neg hs]
  by_cases ha : db.efSbTxnStateLoad ≠ txnStateActive
  · rw [if_pos ha]
    exact ⟨rfl, rfl⟩
  rw [if_neg ha]
  simp only
  have h₀ : (({ db with txnState := txnStateAborting } : Db).setError .ok).mapCapacity =
      db.mapCapacity ∧ (({ db with txnState := txnStateAborting } : Db).setError .ok).backend =
        db.backend := ⟨rfl, rfl⟩
  generalize ({ db with txnState := txnStateAborting } : Db).setError .ok = db₀ at h₀ ⊢
  have h₁ := refits_efUndoReplayReverse db₀
  generalize db₀.efUndoReplayReverse = r at h₁ ⊢
  obtain ⟨err, db₁⟩ := r
  have h₂ : Refits db₀ db₁.efUndoReset := Refits.trans h₁ (sized_efUndoReset db₁).refits
  simp only
  generalize db₁.efUndoReset = db₂ at h₂ ⊢
  obtain ⟨m, heq⟩ := efSbTxnLockRelease_eq db₂ txnStateNone
  rw [heq]
  exact ⟨h₂.mapCapacity.trans h₀.1, h₂.backend.trans h₀.2⟩

/-- The last stage changes nothing of the sizes but the file size. -/
lemma finishOpen_memory (hb : db.backend = .memory) (hfin : db.finishOpen = (.ok, db')) :
    db'.mapCapacity = db.mapCapacity ∧ db'.backend = db.backend ∧ db'.hashCapacity = db.hashCapacity ∧
      db'.fileSize = max db.fileSize db.efRebuildFreeList.need ∧ db'.mem =
          db.efRebuildFreeList.mem := by
  have hf := frame_efRebuildFreeList db
  have hb' : db.efRebuildFreeList.backend = .memory := hf.backend.trans hb
  have hcases := finishOpen_cases (not_rebuildFaults hfin)
  rw [hfin] at hcases
  generalize db.efRebuildFreeList = rebuilt at hf hb' hcases ⊢
  generalize rebuilt.need = size at hcases ⊢
  rw [← hf.fileSize, ← hf.mapCapacity, ← hf.backend, ← hf.hashCapacity]
  rcases hcases with ⟨hle, heq⟩ | ⟨-, hfile, -⟩ | ⟨hlt, -, heq⟩
  · cases heq
    exact ⟨rfl, rfl, rfl, (max_eq_left hle).symm, rfl⟩
  · rw [hb'] at hfile
    cases hfile
  · cases heq
    exact ⟨rfl, rfl, rfl, (max_eq_right hlt.le).symm, rfl⟩

/-- The last stage leaves the undo segment where it is. -/
lemma undo_finishOpen (hfin : db.finishOpen = (.ok, db')) :
    db'.undoLogSlots = db.undoLogSlots ∧ db'.undoLogBase = db.undoLogBase := by
  have hf := frame_efRebuildFreeList db
  have hcases := finishOpen_cases (not_rebuildFaults hfin)
  rw [hfin] at hcases
  generalize db.efRebuildFreeList = rebuilt at hf hcases
  generalize rebuilt.need = size at hcases
  rw [← hf.undoLogSlots, ← hf.undoLogBase]
  rcases hcases with ⟨-, heq⟩ | ⟨-, -, heq⟩ | ⟨-, -, heq⟩
  · cases heq
    exact ⟨rfl, rfl⟩
  · cases heq
  · cases heq
    exact ⟨rfl, rfl⟩

/-- Recovery does not move the undo segment. -/
lemma undoLogBase_recover (h : db.Opening) :
    db.efTxnRecoverFromStaleLock.2.undoLogBase = db.undoLogBase := by
  by_cases hactive : db.sb.txnState = txnStateActive
  · obtain ⟨err, db₂, hrefits, heq⟩ := efTxnRecoverFromStaleLock_eq h hactive
    rw [heq]
    exact hrefits.undoLogBase
  · rw [efTxnRecoverFromStaleLock_of_ne h hactive]

/-- What the accepted open of a v5 image leaves. -/
structure OpenedV5 (m : Mem) (size : ℕ) (db : Db) : Prop where
  backend : db.backend = .memory
  mapCapacity : db.mapCapacity = size
  fileSize : db.fileSize = exactSize (Superblock.read m).maxSlots db.hashCapacity
  room : db.fileSize ≤ size
  maxSlots : db.sb.maxSlots = (Superblock.read m).maxSlots
  undoLogSlots : db.undoLogSlots = undoLogDefaultSlots
  undoLogBase : db.undoLogBase =
    (64 + efHashCapacityFromSb m * 16 + (Superblock.read m).maxSlots * 64) % u64

/-- A v5 image whose layout does not wrap. -/
lemma openedV5 (hs : (Superblock.read m).schemaVersion = schemaVersion)
    (hfits : exactSize (Superblock.read m).maxSlots 131071 < u64) (hprobe : probeSize m ≤ size)
    (hok : (fresh m (probeSize m) size .memory env).efDbInitExisting = (.ok, db')) :
    OpenedV5 m size db' := by
  have hw : (fresh m (probeSize m) size .memory env).readonly = false := rfl
  obtain ⟨hvalid, db₁, db₂, hmig, hrec, hfin⟩ := efDbInitExisting_stages hw hok
  have hcap : efHashCapacityFromSb m ≤ 0xFFFF := efHashCapacityValid_le hvalid.cap
  rw [exactSize_eq] at hfits
  have hv5 : probeSize m = v5Size m := by
    unfold probeSize
    rw [if_pos hs]
    rfl
  obtain ⟨hopening, hfit⟩ : (fresh m (probeSize m) size .memory env).Opening ∧
      (fresh m (probeSize m) size .memory env).Fitted :=
    fitted_fresh hs (by rw [← efHashCapacityFromSb_read hs]; omega) hv5 fun _ => hprobe
  rw [fresh_bound, migrate_of_v5 hopening.schema] at hmig
  obtain rfl := (Prod.mk.inj hmig).2
  obtain ⟨hfit₂, hopening₂, hmax, hlogs⟩ := fitted_recover hopening hfit
  obtain ⟨hmap, hback⟩ := mapCapacity_recover (fresh m (probeSize m) size .memory env)
  have hbase := undoLogBase_recover hopening
  rw [hrec] at hfit₂ hopening₂ hmax hlogs hback hmap hbase
  obtain ⟨hmap', hback', hhash', hsize, hmem⟩ := finishOpen_memory hback hfin
  obtain ⟨hlogs', hbase'⟩ := undo_finishOpen hfin
  rw [hopening₂.need_rebuilt hfit₂ hlogs, max_self] at hsize
  have hmap₂ : db₂.mapCapacity = size := hmap
  have hmax₂ : db₂.sb.maxSlots = (Superblock.read m).maxSlots := hmax
  have hcap₂ : db₂.hashCapacity < 65536 := by
    rw [← hfit₂.cap]
    exact load_lt db₂.mem 56 2
  have hexact : db₂.fileSize = exactSize (Superblock.read m).maxSlots db₂.hashCapacity := by
    have hlt : exactSize (Superblock.read m).maxSlots db₂.hashCapacity < u64 := by
      rw [exactSize_eq]
      omega
    rw [hfit₂.size, efExpectedFileSize_exact, hmax₂, Nat.mod_eq_of_lt hlt]
  refine ⟨hback'.trans hback, hmap'.trans hmap, by rw [hsize, hhash', hexact], ?_, ?_,
    hlogs'.trans hlogs, hbase'.trans hbase⟩
  · rw [hsize, ← hmap₂]
    exact hfit₂.room hback
  · rw [← hmax₂]
    exact (congrArg (fun m => (Superblock.read m).maxSlots) hmem).trans
      ((frame_efRebuildFreeList db₂).maxSlots hopening₂.rooted)

/-- The capacity a handle is bound to: in a v3 image the lock stands behind the capacity. -/
def boundCapacity (m : Mem) : ℕ :=
  efHashCapacityFromSb m +
    if (Superblock.read m).schemaVersion = schemaVersionV3 ∧ 0 < efHashCapacityFromSb m ∧
      load m 60 4 ≠ 0 then 65536 else 0

/-- What the accepted open of an older image leaves. -/
structure OpenedOlder (m : Mem) (size : ℕ) (db : Db) : Prop where
  backend : db.backend = .memory
  mapCapacity : db.mapCapacity = size
  hashCapacity : db.hashCapacity = boundCapacity m
  fileSize : db.fileSize = exactSize (Superblock.read m).maxSlots (efHashCapacityFromSb m)
  maxSlots : db.sb.maxSlots = (Superblock.read m).maxSlots
  schema : db.sb.schemaVersion = schemaAfter m
  undoLogSlots : db.undoLogSlots = undoLogDefaultSlots
  undoLogBase : db.undoLogBase = (db.slotsBase + (Superblock.read m).maxSlots * 64) % u64

/-- An older image whose layout does not wrap. -/
lemma openedOlder (hs : (Superblock.read m).schemaVersion ≠ schemaVersion)
    (hfits : exactSize (Superblock.read m).maxSlots 131071 < u64)
    (hok : (fresh m (probeSize m) size .memory env).efDbInitExisting = (.ok, db')) :
    OpenedOlder m size db' := by
  have hw : (fresh m (probeSize m) size .memory env).readonly = false := rfl
  obtain ⟨hvalid, db₁, db₂, hmig, hrec, hfin⟩ := efDbInitExisting_stages hw hok
  rw [fresh_bound] at hmig
  have hcap : efHashCapacityFromSb m ≤ 0xFFFF := efHashCapacityValid_le hvalid.cap
  rw [exactSize_eq] at hfits
  have hroom : HasRoom m := by
    unfold HasRoom
    omega
  have hlt : (Superblock.read m).schemaVersion < schemaVersion := lt_of_le_of_ne hvalid.schema hs
  have hv5 : v5Size m = exactSize (Superblock.read m).maxSlots (efHashCapacityFromSb m) := by
    have hlt : exactSize (Superblock.read m).maxSlots (efHashCapacityFromSb m) < u64 := by
      rw [exactSize_eq]
      omega
    unfold Model.v5Size
    rw [efExpectedFileSize_exact, Nat.mod_eq_of_lt hlt]
  have hprobe : probeSize m ≤ v5Size m := by
    rw [hv5, exactSize_eq]
    unfold probeSize efExpectedFileSize
    rw [if_neg hs]
    refine (Nat.mod_le _ _).trans ?_
    omega
  -- the bytes of the capacity and the lock decide what the handle is bound to
  obtain ⟨hready, hback, hmap, hhash, hbase⟩ : Ready m (probeSize m) (if Migrates m then schemaVersion
      else (Superblock.read m).schemaVersion) db₂ ∧ db₂.backend = .memory ∧ db₂.mapCapacity = size ∧
      db₂.hashCapacity = boundCapacity m ∧
      db₂.undoLogBase = (db₂.slotsBase + (Superblock.read m).maxSlots * 64) % u64 := by
    unfold boundCapacity
    by_cases hm : Migrates m
    · obtain ⟨db₁', hmig', hspec⟩ :=
        migrate_of_migrates (fresh_bound m (probeSize m) size .memory env ▸ hm)
          (fresh_bound m (probeSize m) size .memory env) hcap hroom
      obtain ⟨hopening, -, hst⟩ := hspec.opening rfl rfl hroom
      have heq := (Prod.mk.inj (hmig'.symm.trans hmig)).2
      subst heq
      rw [efTxnRecoverFromStaleLock_of_ne hopening (by rw [hst]; norm_num)] at hrec
      have heq := (Prod.mk.inj hrec).2
      subst heq
      rw [if_pos hm]
      refine ⟨hspec.ready rfl, hspec.backend, hspec.mapCapacity, ?_, hspec.undoLogBase⟩
      have hq := hspec.queueLock
      have hhc := hspec.hashCapacity
      rw [hspec.hashCap, hq] at hhc
      refine hhc.trans ?_
      have hfields : (fresh m (probeSize m) size .memory env).sb.schemaVersion =
          (Superblock.read m).schemaVersion ∧ (fresh m (probeSize m) size .memory env).mem = m :=
        ⟨rfl, rfl⟩
      rw [hfields.1, hfields.2]
      by_cases hlock : (Superblock.read m).schemaVersion = schemaVersionV3 ∧ load m 60 4 ≠ 0
      · have hpos : 0 < efHashCapacityFromSb m := by
          rcases hm with h4 | ⟨-, hpos⟩
          · exact absurd (h4.symm.trans hlock.1) (by norm_num)
          · exact hpos
        rw [if_pos hlock, if_pos ⟨hlock.1, hpos, hlock.2⟩]
      · rw [if_neg hlock, if_neg (fun h => hlock ⟨h.1, h.2.2⟩)]
    · rw [migrate_of_not_migrates (show ¬ Migrates (fresh m (probeSize m) size .memory env).mem
        from hm)] at hmig
      have heq := (Prod.mk.inj hmig).2
      subst heq
      have hnone : (fresh m (probeSize m) size .memory env).efTxnRecoverFromStaleLock =
          (.ok, fresh m (probeSize m) size .memory env) := if_pos hlt
      have heq := (Prod.mk.inj (hnone.symm.trans hrec)).2
      subst heq
      rw [if_neg hm, if_neg (fun h => hm (.inr ⟨h.1, h.2.1⟩))]
      exact ⟨ready_fresh hlt size .memory, rfl, rfl, rfl, rfl⟩
  obtain ⟨hmap', hb', hhash', hsize, hmem⟩ := finishOpen_memory hback hfin
  obtain ⟨hlogs', hbase'⟩ := undo_finishOpen hfin
  rw [hready.rebuilt.need, hready.fileSize, max_eq_right hprobe, hv5] at hsize
  have hsb : db'.sb = db₂.efRebuildFreeList.sb := congrArg Superblock.read hmem
  refine ⟨hb'.trans hback, hmap'.trans hmap, hhash'.trans hhash, hsize, ?_, ?_, ?_, ?_⟩
  · rw [hsb]
    exact hready.rebuilt.maxSlots
  · rw [hsb]
    exact hready.rebuilt.schema
  · exact hlogs'.trans hready.undoLogSlots
  · rw [hbase', hbase, slotsBase_eq, slotsBase_eq, hhash']

end Db

end Endfields.Model
