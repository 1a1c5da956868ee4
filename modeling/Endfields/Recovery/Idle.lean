import Endfields.Spec.Moves

/-!
# The transaction lock after an open

A crash leaves any combination of the transaction lock and the transaction state in the image.

* `Image m size`: the bytes are a v5 image, whose superblock lays out no more than `size` of them.
* `WritableOpen m size db`: one of the two opens accepts the image for writing, as the handle `db`.
* **`Db.open_idle_iff`**: the opened handle has the lock clear and the state `NONE`, and begins a
  transaction, exactly if the image says `ACTIVE`, or `NONE` with the lock clear. Recovery looks at
  the state only, and at `ACTIVE` only.
-/

namespace Endfields.Model

open Endfields.Lib

/-- A v5 image: what the superblock lays out lies inside the bytes that are there. -/
structure Image (m : Mem) (size : ℕ) : Prop where
  schema : (Superblock.read m).schemaVersion = schemaVersion
  fits : 64 + (Superblock.read m).hashCap * 16 + (Superblock.read m).maxSlots * 64 +
    undoLogBytes undoLogDefaultSlots ≤ size
  size_lt : size < u64

namespace Db

/-- The image of `size` bytes is accepted for writing, from a buffer or as a file. -/
inductive WritableOpen (m : Mem) (size : ℕ) : Db → Prop
  | memory (maxSlots cap : ℕ) (env : Env)
      (h : (efOpenMemoryHash m size maxSlots cap false env).1 = .ok) :
      WritableOpen m size (efOpenMemoryHash m size maxSlots cap false env).2
  | file (initialSlots cap : ℕ) (env : Env) (h : (efOpenExHash m size initialSlots cap env).1 = .ok) :
      WritableOpen m size (efOpenExHash m size initialSlots cap env).2

/-- Lock and state are clear, and a transaction begins when no other party takes the lock. -/
def Idle (db : Db) : Prop :=
  db.sb.txnLock = 0 ∧ db.sb.txnState = txnStateNone ∧ db.txnState = txnStateNone ∧
    (db.env.contention = [] → db.efTxnBegin.1 = .ok)

variable {db db' : Db} {m : Mem} {size : ℕ}

/-! ### Beginning -/

/-- A writable v5 handle outside a transaction is idle as soon as lock and state are clear. -/
lemma idle_iff (hs : db.sb.schemaVersion = schemaVersion) (hw : db.readonly = false)
    (hact : db.txnActive = false) (hstate : db.txnState = txnStateNone) :
    db.Idle ↔ db.sb.txnLock = 0 ∧ db.sb.txnState = txnStateNone := by
  refine ⟨fun h => ⟨h.1, h.2.1⟩, fun ⟨hlock, hst⟩ => ⟨hlock, hst, hstate, fun hquiet => ?_⟩⟩
  have hcont : db.contended = (false, db) := by
    unfold contended
    rw [hquiet]
  have hge : ¬ db.sb.schemaVersion < schemaVersion := by omega
  have hacq : db.efSbTxnLockTryAcquire = (.ok, db.setTxnLock 1) := by
    unfold efSbTxnLockTryAcquire
    rw [if_neg hge, hcont]
    simp [hlock]
  unfold efTxnBegin
  rw [if_neg (by simp [hw]), if_neg hge, if_neg (by simp [hact]), hacq]

/-! ### Recovery -/

/-- The lock is released, and the state stays.
Source: `ef_sb_layout.c`, `ef_sb_txn_lock_release` -/
lemma sb_txnLock_release : (db.setTxnLock 0).sb.txnLock = 0 ∧
    (db.setTxnLock 0).sb.txnState = db.sb.txnState :=
  ⟨(load_store_self db.mem 60 1 0).trans (Nat.zero_mod _), load_store_of_disjoint (by omega)⟩

/-- The state is cleared.
Source: `ef_sb_layout.c`, `ef_sb_txn_state_store` -/
lemma sb_txnState_none : (db.setTxnState txnStateNone).sb.txnState = txnStateNone :=
  (load_store_self db.mem 61 1 0).trans (Nat.zero_mod _)

/-- The state of the transaction is no part of the schema. -/
lemma sb_schema_setTxnState (v : ℕ) :
    (db.setTxnState v).sb.schemaVersion = db.sb.schemaVersion :=
  load_store_of_disjoint (by omega)

/-- The lock of the transaction is no part of the schema. -/
lemma sb_schema_setTxnLock (v : ℕ) : (db.setTxnLock v).sb.schemaVersion = db.sb.schemaVersion :=
  load_store_of_disjoint (by omega)

/-- A writable handle on a v5 image, outside a transaction. -/
structure Opening (db : Db) : Prop where
  schema : db.sb.schemaVersion = schemaVersion
  base : 64 ≤ db.undoLogBase
  writable : db.readonly = false
  inactive : db.txnActive = false

/-- The handle of an open has the mapping at offset 0. -/
lemma Opening.rooted (h : db.Opening) : db.Rooted := ⟨h.schema.ge, .inr h.base⟩

/-- The schema is the current one. -/
lemma Opening.schema_not_lt (h : db.Opening) : ¬ db.sb.schemaVersion < schemaVersion := by
  rw [h.schema]
  exact lt_irrefl _

/-- A step that keeps the layout goes on with the open. -/
lemma Opening.keeps (h : db.Opening) (hk : Keeps db db') : db'.Opening where
  schema := (hk.schema h.rooted).trans h.schema
  base := by
    rw [hk.undoLogBase]
    exact h.base
  writable := hk.readonly.trans h.writable
  inactive := hk.txnActive.trans h.inactive

/-- What comes after the recovery decides nothing about the transaction. -/
lemma Opening.idle_iff_of_keeps (h : db.Opening) (hstate : db.txnState = txnStateNone)
    (hk : Keeps db db') : db'.Idle ↔ db.sb.txnLock = 0 ∧ db.sb.txnState = txnStateNone := by
  have h' := h.keeps hk
  rw [idle_iff h'.schema h'.writable h'.inactive (hk.txnState.trans hstate), hk.txnLock h.rooted,
    hk.sbTxnState h.rooted]

/-- Recovery does nothing in every state but `ACTIVE`. -/
lemma efTxnRecoverFromStaleLock_of_ne (h : db.Opening) (hne : db.sb.txnState ≠ txnStateActive) :
    db.efTxnRecoverFromStaleLock = (.ok, db) := by
  have hge := h.schema_not_lt
  unfold efTxnRecoverFromStaleLock efSbTxnStateLoad
  rw [if_neg hge, if_neg hge, if_pos hne]

/-- What recovery does in the state `ACTIVE`: it replays and clears the log, and then clears state
and lock. -/
lemma efTxnRecoverFromStaleLock_eq (h : db.Opening) (hactive : db.sb.txnState = txnStateActive) :
    ∃ err db', Refits (({ db with txnState := txnStateAborting } : Db).setError .ok) db' ∧
      db.efTxnRecoverFromStaleLock = (err, ({ (db'.setTxnState txnStateNone).setTxnLock 0 with
        txnState := txnStateNone } : Db).efDbMarkMetaDirty) := by
  have hge := h.schema_not_lt
  unfold efTxnRecoverFromStaleLock efSbTxnStateLoad
  rw [if_neg hge, if_neg hge, if_neg (not_not.mpr hactive)]
  simp only
  -- the replay and the reset of the log leave lock, state and schema as they are
  have h₀ : (({ db with txnState := txnStateAborting } : Db).setError .ok).Opening :=
    ⟨h.schema, h.base, h.writable, h.inactive⟩
  generalize ({ db with txnState := txnStateAborting } : Db).setError .ok = db₀ at h₀ ⊢
  have h₁ := refits_efUndoReplayReverse db₀
  generalize db₀.efUndoReplayReverse = r at h₁ ⊢
  obtain ⟨err, db₁⟩ := r
  have h₂ : Refits db₀ db₁.efUndoReset := Refits.trans h₁ (sized_efUndoReset db₁).refits
  simp only
  generalize db₁.efUndoReset = db₂ at h₂ ⊢
  have hge₂ : ¬ db₂.sb.schemaVersion < schemaVersion := (h₀.keeps h₂.toKeeps).schema_not_lt
  have hstore : db₂.efSbTxnStateStore txnStateNone = db₂.setTxnState txnStateNone := if_neg hge₂
  have hrelease : (db₂.setTxnState txnStateNone).efSbTxnLockRelease =
      (db₂.setTxnState txnStateNone).setTxnLock 0 := by
    refine if_neg ?_
    rw [sb_schema_setTxnState]
    exact hge₂
  rw [hstore, hrelease]
  exact ⟨err, db₂, h₂, rfl⟩

/-- **Recovery** clears lock and state of a handle in the state `ACTIVE`. -/
lemma efTxnRecoverFromStaleLock_of_active (h : db.Opening) (hactive : db.sb.txnState = txnStateActive) :
    db.efTxnRecoverFromStaleLock.2.Opening ∧ db.efTxnRecoverFromStaleLock.2.sb.txnLock = 0 ∧
      db.efTxnRecoverFromStaleLock.2.sb.txnState = txnStateNone ∧
      db.efTxnRecoverFromStaleLock.2.txnState = txnStateNone := by
  have h₀ : (({ db with txnState := txnStateAborting } : Db).setError .ok).Opening :=
    ⟨h.schema, h.base, h.writable, h.inactive⟩
  obtain ⟨err, db₂, hrefits, heq⟩ := efTxnRecoverFromStaleLock_eq h hactive
  have h₂ := h₀.keeps hrefits.toKeeps
  rw [heq]
  refine ⟨⟨?_, h₂.base, h₂.writable, h₂.inactive⟩, sb_txnLock_release.1, ?_, rfl⟩
  · exact (sb_schema_setTxnLock 0).trans ((sb_schema_setTxnState _).trans h₂.schema)
  · exact sb_txnLock_release.2.trans sb_txnState_none

/-! ### The open of an existing image -/

/-- A v5 image is not migrated. -/
lemma migrate_of_v5 (hs : db.sb.schemaVersion = schemaVersion) : db.migrate = (.ok, db) := by
  unfold migrate
  simp [hs]

/-- The handle that an open starts with. -/
lemma opening_fresh (h : Image m size) (fileSize mapCapacity : ℕ) (backend : Backend) (env : Env) :
    (fresh m fileSize mapCapacity backend env).Opening := by
  have hload : efHashCapacityFromSb m = (Superblock.read m).hashCap := by
    unfold efHashCapacityFromSb efSbHashCapacityLoad
    rw [h.schema, if_neg (by norm_num), if_pos le_rfl]
    rfl
  refine ⟨h.schema, ?_, rfl, rfl⟩
  have hfits := h.fits
  have hlt := h.size_lt
  show 64 ≤ (64 + efHashCapacityFromSb m * 16 + (Superblock.read m).maxSlots * 64) % u64
  rw [hload, Nat.mod_eq_of_lt (by omega)]
  omega

/-- What an open does after the recovery. -/
def finishOpen (db : Db) : Err × Db :=
  if db.rebuildFaults then (.fault, db)
  else
    let db := db.efRebuildFreeList
    let v5Size := efExpectedFileSize db.sb.maxSlots (efHashCapacityFromSb db.mem) db.undoLogSlots
    if db.fileSize < v5Size then
      if db.backend = .file then (.fileSize, db)
      else (.ok, { db with fileSize := v5Size })
    else (.ok, db)

/-- The end of an open keeps the layout.
Source: `endfields.c`, `ef_db_init_mapped` -/
lemma keeps_finishOpen (db : Db) : Keeps db db.finishOpen.2 := by
  have hf := (frame_efRebuildFreeList db).toKeeps
  unfold finishOpen
  simp only
  generalize db.efRebuildFreeList = db₁ at hf ⊢
  split_ifs
  · exact .refl db
  · exact hf
  · exact hf.trans ⟨rfl, rfl, rfl, rfl, rfl, rfl, rfl, fun _ _ _ => rfl⟩
  · exact hf

/-- An image that passes the checks is recovered, and finished if that succeeds. -/
lemma efDbInitExisting_eq (h : db.Opening) (hbind : db.efDbBindSlotsLayout = db)
    (hvalid : efValidateSuperblock db.mem db.fileSize = .ok) :
    db.efDbInitExisting =
      match db.efTxnRecoverFromStaleLock with
      | (.ok, db) => db.finishOpen
      | (err, db) => (err, db) := by
  unfold efDbInitExisting
  rw [hvalid, hbind, migrate_of_v5 h.schema]
  simp only
  rw [if_neg (by simp [h.writable]), if_pos h.schema.ge]
  rfl

/-- **The open of a v5 image**, accepted with `EF_OK`. -/
lemma efDbInitExisting_idle (h : db.Opening) (hstate : db.txnState = txnStateNone)
    (hbind : db.efDbBindSlotsLayout = db) (hok : db.efDbInitExisting.1 = .ok) :
    (db.efDbInitExisting.2.setError .ok).Idle ↔
      db.sb.txnState = txnStateActive ∨ (db.sb.txnState = txnStateNone ∧ db.sb.txnLock = 0) := by
  have hfinish : ∀ db : Db, Keeps db (db.finishOpen.2.setError .ok) := fun db =>
    (keeps_finishOpen db).trans (Frame.refl _).setError.toKeeps
  have hvalid : efValidateSuperblock db.mem db.fileSize = .ok := by
    unfold efDbInitExisting at hok
    cases hv : efValidateSuperblock db.mem db.fileSize with
    | ok => rfl
    | _ =>
        rw [hv] at hok
        cases hok
  rw [efDbInitExisting_eq h hbind hvalid] at hok ⊢
  by_cases hactive : db.sb.txnState = txnStateActive
  · obtain ⟨h₁, hlock, hst, hstate₁⟩ := efTxnRecoverFromStaleLock_of_active h hactive
    generalize db.efTxnRecoverFromStaleLock = r at h₁ hlock hst hstate₁ hok ⊢
    obtain ⟨err, db₁⟩ := r
    cases err with
    | ok =>
        have hidle := (Opening.idle_iff_of_keeps h₁ hstate₁ (hfinish db₁)).mpr ⟨hlock, hst⟩
        exact ⟨fun _ => .inl hactive, fun _ => hidle⟩
    | _ => cases hok
  · rw [efTxnRecoverFromStaleLock_of_ne h hactive]
    refine (h.idle_iff_of_keeps hstate (hfinish db)).trans ?_
    constructor
    · rintro ⟨hlock, hst⟩
      exact .inr ⟨hst, hlock⟩
    · rintro (hst | ⟨hst, hlock⟩)
      · exact absurd hst hactive
      · exact ⟨hlock, hst⟩

/-! ### The entry points -/

/-- The last step of both opens, on a handle fresh from binding. -/
lemma openExisting_idle (h : Image m size) (fileSize mapCapacity : ℕ) (backend : Backend) (env : Env) :
    let opened : Err × Db :=
      match (fresh m fileSize mapCapacity backend env).efDbInitExisting with
      | (.ok, db) => (.ok, db.setError .ok)
      | (err, db) => (err, db)
    opened.1 = .ok → (opened.2.Idle ↔ (Superblock.read m).txnState = txnStateActive ∨
      ((Superblock.read m).txnState = txnStateNone ∧ (Superblock.read m).txnLock = 0)) := by
  have hidle := efDbInitExisting_idle (opening_fresh h fileSize mapCapacity backend env) rfl rfl
  simp only
  generalize (fresh m fileSize mapCapacity backend env).efDbInitExisting = r at hidle ⊢
  obtain ⟨err, db⟩ := r
  cases err with
  | ok => exact fun _ => hidle rfl
  | _ => exact fun hok => by cases hok

/-- **A v5 image after a writable open**: lock clear, state `NONE` and ready for a transaction,
exactly if it came with the state `ACTIVE`, or with both clear. -/
theorem open_idle_iff (himage : Image m size) (hopen : WritableOpen m size db) :
    db.Idle ↔ (Superblock.read m).txnState = txnStateActive ∨
      ((Superblock.read m).txnState = txnStateNone ∧ (Superblock.read m).txnLock = 0) := by
  cases hopen with
  | memory maxSlots cap env hok =>
      unfold efOpenMemoryHash at hok ⊢
      simp only [Bool.false_eq_true, if_false] at hok ⊢
      split_ifs at hok ⊢ <;> exact openExisting_idle himage _ _ _ _ hok
  | file initialSlots cap env hok =>
      have hsize : size ≠ 0 := by
        have hfits := himage.fits
        omega
      unfold efOpenExHash at hok ⊢
      simp only [hsize, decide_false, Bool.false_eq_true, if_false, true_and] at hok ⊢
      have hv5 : ¬ (fresh m size size .file env).sb.schemaVersion < schemaVersion :=
        (opening_fresh himage size size .file env).schema_not_lt
      rw [if_neg hv5] at hok ⊢
      split_ifs at hok ⊢
      exact openExisting_idle himage _ _ _ _ hok

/-- An image of one slot, with the given transaction lock and state and its checksum. -/
def leftBehind (lock state : ℕ) : Mem :=
  (((newMemory 1 0).setTxnLock lock).setTxnState state).efSbChecksumStore.mem

/-- The open of that image in a buffer of its size. -/
def reopenLeftBehind (lock state : ℕ) : Err × Db :=
  efOpenMemoryHash (leftBehind lock state) 131232 1 0 false Env.quiet

/-- Both images that were left behind are images. -/
lemma image_leftBehind : Image (leftBehind 1 1) 131232 ∧ Image (leftBehind 1 2) 131232 := by
  refine ⟨⟨?_, ?_, ?_⟩, ⟨?_, ?_, ?_⟩⟩ <;> decide +kernel

/-- An image left in a transaction. -/
theorem open_idle_of_active : Image (leftBehind 1 1) 131232 ∧ (reopenLeftBehind 1 1).1 = .ok ∧
    ((reopenLeftBehind 1 1).2.Idle ↔
      (Superblock.read (leftBehind 1 1)).txnState = txnStateActive ∨
        ((Superblock.read (leftBehind 1 1)).txnState = txnStateNone ∧
          (Superblock.read (leftBehind 1 1)).txnLock = 0)) :=
  ⟨image_leftBehind.1, by decide +kernel,
    open_idle_iff image_leftBehind.1 (.memory 1 0 Env.quiet (by decide +kernel))⟩

/-- An image left in the middle of an abort: it is opened, and refuses every transaction. -/
theorem open_keeps_aborting : Image (leftBehind 1 2) 131232 ∧ (reopenLeftBehind 1 2).1 = .ok ∧
    (reopenLeftBehind 1 2).2.sb.txnLock = 1 ∧ (reopenLeftBehind 1 2).2.sb.txnState = txnStateAborting ∧
      (reopenLeftBehind 1 2).2.efTxnBegin.1 = .txnBusy :=
  ⟨image_leftBehind.2, by decide +kernel, by decide +kernel, by decide +kernel, by decide +kernel⟩

end Db

end Endfields.Model
