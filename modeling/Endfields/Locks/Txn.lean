import Endfields.Model.Shared
import Endfields.Recovery.Idle
import Endfields.Spec.Txn

/-!
# Transactions of several handles

Any number of handles on one v5 image, and any interleaving of complete calls to the writable opens,
`ef_sync`, `ef_txn_begin`, `ef_txn_commit` and `ef_txn_abort` on them.

* `TxnOp`, `SharedCall`, `SharedRun`: the calls, and the states they lead to; a condition may
  restrict them.
* `Exclusive s`: at most one handle is in a transaction, and its transaction lasts until it ends it.
* `TxnEffect`: what a call does to the lock, the state and the handle's flag.
* **`Db.sharedRun_exclusive`**: transactions exclude each other as long as the image is not accepted
  by an open while a handle is in a transaction.
* `Db.sharedRun_two_active`: `ef_sync` in a transaction makes the image acceptable, the open
  recovers it, and two handles are in a transaction.
-/

namespace Endfields.Model

open Endfields.Lib

/-- The image passes the checks of the open, and its arguments do: it comes to the recovery. -/
def OpenKind.Accepts (m : Mem) (size : ℕ) (env : Env) (kind : OpenKind) : Prop :=
  efHashCapacityValid kind.hashCapacity = true ∧ env.mallocFails = false ∧ kind.mapSize m size ≤ size ∧
    efValidateSuperblock m (kind.mapSize m size) = .ok

namespace Db

/-- The calls of the transactions, and `ef_sync`. -/
inductive TxnOp
  | sync
  | txnBegin
  | txnCommit
  | txnAbort

/-- A call through a handle. -/
def TxnOp.apply (op : TxnOp) (db : Db) : Err × Db :=
  match op with
  | .sync => db.efSync
  | .txnBegin => db.efTxnBegin
  | .txnCommit => db.efTxnCommit
  | .txnAbort => db.efTxnAbort

/-- A call of one of the parties. -/
inductive SharedCall (ι : Type*)
  | opens (i : ι) (env : Env) (kind : OpenKind)
  | calls (i : ι) (env : Env) (op : TxnOp)

variable {ι : Type*} [DecidableEq ι]

/-- The state after a call. -/
def SharedCall.run (s : Shared ι) : SharedCall ι → Shared ι
  | .opens i env kind => s.opens i env kind
  | .calls i env op => s.calls i env op.apply

/-- The states that calls lead to on a v5 image, from no open handle on. The size of an image is a
signed 64-bit number. -/
inductive SharedRun (cond : Shared ι → SharedCall ι → Prop) : Shared ι → Prop
  | start (m : Mem) (size : ℕ) (himage : Image m size) (hsize : size < 2 ^ 63) :
      SharedRun cond ⟨m, size, fun _ => none⟩
  | step (s : Shared ι) (h : SharedRun cond s) (c : SharedCall ι) (hc : cond s c) :
      SharedRun cond (c.run s)

/-- The party's handle is in a transaction. -/
def Active (s : Shared ι) (i : ι) : Prop := ∃ db ∈ s.handle i, db.txnActive = true

/-- The image is in a transaction. -/
def Held (m : Mem) : Prop :=
  (Superblock.read m).txnLock ≠ 0 ∧ (Superblock.read m).txnState = txnStateActive

/-- The call ends the party's own transaction. -/
def SharedCall.Ends (i : ι) : SharedCall ι → Prop
  | .calls j _ op => j = i ∧ (op = .txnCommit ∨ op = .txnAbort)
  | .opens _ _ _ => False

/-- At most one handle is in a transaction, the image is in it too, and no call ends it but a commit
or an abort of that handle. -/
structure Exclusive (cond : Shared ι → SharedCall ι → Prop) (s : Shared ι) : Prop where
  one : ∀ i j, Active s i → Active s j → i = j
  held : ∀ i, Active s i → Held s.mem
  lasts : ∀ i c, cond s c → Active s i → ¬ c.Ends i → Active (c.run s) i ∧ Held (c.run s).mem

/-- While a handle is in a transaction, no open of another accepts the image. -/
def OpensRefused (s : Shared ι) : SharedCall ι → Prop
  | .opens j env kind => s.handle j = none → (∃ i, Active s i) → ¬ kind.Accepts s.mem s.size env
  | .calls _ _ _ => True

variable {db db' db'' : Db} {m : Mem} {size : ℕ} {env : Env} {s : Shared ι}

/-! ### What the calls keep -/

/-- The schema, the number of slots and the place of the undo segment stay. -/
structure Stays (db db' : Db) : Prop where
  schema : db'.sb.schemaVersion = db.sb.schemaVersion
  maxSlots : db'.sb.maxSlots = db.sb.maxSlots
  base : db'.undoLogBase = db.undoLogBase

/-- Nothing happened. -/
lemma Stays.refl (db : Db) : Stays db db := ⟨rfl, rfl, rfl⟩

/-- One call after the other. -/
lemma Stays.trans (h : Stays db db') (h' : Stays db' db'') : Stays db db'' :=
  ⟨h'.schema.trans h.schema, h'.maxSlots.trans h.maxSlots, h'.base.trans h.base⟩

/-- A call that keeps the fixed bytes keeps the layout. -/
lemma Keeps.stays (h : Keeps db db') (hr : db.Rooted) : Stays db db' :=
  ⟨h.schema hr, h.maxSlots hr, h.undoLogBase⟩

/-- The lock byte is no part of the layout. -/
lemma stays_setTxnLock (v : ℕ) : Stays db (db.setTxnLock v) :=
  ⟨sb_schema_setTxnLock v, load_store_of_disjoint (by omega), rfl⟩

/-- The state byte is no part of the layout. -/
lemma stays_setTxnState (v : ℕ) : Stays db (db.setTxnState v) :=
  ⟨sb_schema_setTxnState v, load_store_of_disjoint (by omega), rfl⟩

/-- A v5 image stays one. -/
lemma Stays.rooted (h : Stays db db') (hr : db.Rooted) : db'.Rooted := by
  unfold Rooted
  rw [h.schema, h.base]
  exact hr

/-- What a call does to the lock, the state and the handle's flag: it leaves them, it begins a
transaction where the lock was free, or it ends the one of the handle. -/
inductive TxnEffect (op : TxnOp) (db db' : Db) : Prop
  | same (active : db'.txnActive = db.txnActive) (lock : db'.sb.txnLock = db.sb.txnLock)
      (state : db'.sb.txnState = db.sb.txnState)
  | begins (free : db.sb.txnLock = 0) (held : Held db'.mem)
  | ends (was : db.txnActive = true) (now : db'.txnActive = false)
      (hop : op = .txnCommit ∨ op = .txnAbort)

/-- A call that keeps lock, state and flag has the effect of none. -/
lemma Keeps.effect (h : Keeps db db') (hr : db.Rooted) (op : TxnOp) : TxnEffect op db db' :=
  .same h.txnActive (h.txnLock hr) (h.sbTxnState hr)

/-- A call keeps what stays, and has its effect. -/
def Does (op : TxnOp) (db db' : Db) : Prop := Stays db db' ∧ TxnEffect op db db'

/-- A call that keeps the fixed bytes does what any call may do. -/
lemma Keeps.does (h : Keeps db db') (hr : db.Rooted) (op : TxnOp) : Does op db db' :=
  ⟨h.stays hr, h.effect hr op⟩

/-- `ef_sync` begins and ends no transaction.
Source: `endfields.c`, `ef_sync` -/
lemma efSync_does (hr : db.Rooted) : Does .sync db db.efSync.2 := by
  have hcommit : Keeps db db.efDbCommitMeta.2 := by
    unfold efDbCommitMeta
    split_ifs
    · exact (Frame.refl db).setError.toKeeps
    · have h := (frame_efSbChecksumStore db).toKeeps
      exact ⟨h.backend, h.readonly, h.txnState, h.txnActive, h.txnWriterPid, h.undoLogBase,
        h.undoLogSlots, h.mem⟩
    · exact (Frame.refl db).setError.toKeeps
  refine Keeps.does ?_ hr .sync
  unfold efSync
  generalize db.efDbCommitMeta = r at hcommit ⊢
  obtain ⟨err, db₁⟩ := r
  cases err with
  | ok => exact hcommit.trans (Frame.refl db₁).setError.toKeeps
  | _ => exact hcommit.trans (Frame.refl db₁).setError.toKeeps

/-- A call, and then one that keeps the fixed bytes. -/
lemma Does.keeps {op : TxnOp} (h : Does op db db') (hr : db.Rooted) (hk : Keeps db' db'') :
    Does op db db'' := by
  have hr' := h.1.rooted hr
  have hlock := hk.txnLock hr'
  have hstate := hk.sbTxnState hr'
  refine ⟨h.1.trans (hk.stays hr'), ?_⟩
  rcases h.2 with ⟨ha, hl, hst⟩ | ⟨hfree, hheld⟩ | ⟨hwas, hnow, hop⟩
  · exact .same (hk.txnActive.trans ha) (hlock.trans hl) (hstate.trans hst)
  · exact .begins hfree ⟨hlock.trans_ne hheld.1, hstate.trans hheld.2⟩
  · exact .ends hwas (hk.txnActive.trans hnow) hop

/-- A call that keeps the fixed bytes, and then another one. -/
lemma Keeps.then_does {op : TxnOp} (hk : Keeps db db') (hr : db.Rooted) (h : Does op db' db'') :
    Does op db db'' := by
  have hlock := hk.txnLock hr
  have hstate := hk.sbTxnState hr
  refine ⟨(hk.stays hr).trans h.1, ?_⟩
  rcases h.2 with ⟨ha, hl, hst⟩ | ⟨hfree, hheld⟩ | ⟨hwas, hnow, hop⟩
  · exact .same (ha.trans hk.txnActive) (hl.trans hlock) (hst.trans hstate)
  · exact .begins (hlock.symm.trans hfree) hheld
  · exact .ends (hk.txnActive.symm.trans hwas) hnow hop

/-- A v5 image passes the check of the schema. -/
lemma Rooted.not_lt (hr : db.Rooted) : ¬ db.sb.schemaVersion < schemaVersion :=
  Nat.not_lt.mpr hr.1

/-- The handle that has taken the lock and set the state. -/
def taken (db : Db) : Db :=
  { (db.setTxnLock 1).setTxnState txnStateActive with
    txnState := txnStateActive
    txnActive := true
    txnWriterPid := db.env.pid }

/-- The lock is taken and the state set: a transaction begins. -/
lemma taken_does (hfree : db.sb.txnLock = 0) : Does .txnBegin db db.taken := by
  have hstays : Stays db ((db.setTxnLock 1).setTxnState txnStateActive) :=
    (stays_setTxnLock 1).trans (stays_setTxnState _)
  refine ⟨⟨hstays.schema, hstays.maxSlots, hstays.base⟩, .begins hfree ⟨?_, load_store_self ..⟩⟩
  have hlock : ((db.setTxnLock 1).setTxnState txnStateActive).sb.txnLock = 1 :=
    (load_store_of_disjoint (by omega)).trans (load_store_self db.mem 60 1 1)
  exact hlock.trans_ne one_ne_zero

/-- **A begin** starts a transaction, or changes nothing.
Source: `ef_txn.c`, `ef_txn_begin` -/
lemma efTxnBegin_does (hr : db.Rooted) : Does .txnBegin db db.efTxnBegin.2 := by
  have hsame : ∀ {db' : Db}, Frame db db' → Does .txnBegin db db' := fun hf =>
    hf.toKeeps.does hr .txnBegin
  have hcont := frame_contended db
  unfold efTxnBegin efSbTxnLockTryAcquire
  rw [if_neg hr.not_lt, if_neg hr.not_lt]
  generalize db.contended = r at hcont ⊢
  obtain ⟨busy, db₁⟩ := r
  have hr₁ := hcont.toKeeps.rooted hr
  split_ifs with hro hact
  · exact hsame (Frame.refl db).setError
  · exact hsame (Frame.refl db).setError
  · by_cases hlock : busy ∨ db₁.sb.txnLock ≠ 0
    · simp only [if_pos hlock]
      exact hsame (Frame.setError hcont)
    · have hfree : db₁.sb.txnLock = 0 := by
        by_contra hne
        exact hlock (.inr hne)
      have hstore : (db₁.setTxnLock 1).efSbTxnStateStore txnStateActive =
          (db₁.setTxnLock 1).setTxnState txnStateActive := by
        refine if_neg ?_
        rw [sb_schema_setTxnLock]
        exact hr₁.not_lt
      simp only [if_neg hlock, hstore]
      have hreset : Keeps db₁.taken (db₁.taken.efUndoReset.efDbMarkMetaDirty.setError .ok) :=
        (sized_efUndoReset db₁.taken).toKeeps.trans (Frame.refl _).markMetaDirty.setError.toKeeps
      exact hcont.toKeeps.then_does hr ((taken_does hfree).keeps hr₁ hreset)

/-- The end of a transaction keeps what stays, and clears the flag. -/
lemma txnEnd_stays (hr : db.Rooted) : Stays db db.txnEnd ∧ db.txnEnd.txnActive = false := by
  unfold txnEnd
  simp only
  have hleft : Stays db { db with
      txnState := txnStateNone
      txnActive := false
      txnWriterPid := txnWriterNone } := ⟨rfl, rfl, rfl⟩
  have hnow : ({ db with
      txnState := txnStateNone
      txnActive := false
      txnWriterPid := txnWriterNone } : Db).txnActive = false := rfl
  generalize ({ db with
    txnState := txnStateNone
    txnActive := false
    txnWriterPid := txnWriterNone } : Db) = db₁ at hleft hnow ⊢
  have hr₁ := hleft.rooted hr
  have hreset := (sized_efUndoReset db₁).toKeeps
  generalize db₁.efUndoReset = db₂ at hreset ⊢
  have hr₂ := hreset.rooted hr₁
  have hstore : db₂.efSbTxnStateStore txnStateNone = db₂.setTxnState txnStateNone := if_neg hr₂.not_lt
  have hrelease : (db₂.setTxnState txnStateNone).efSbTxnLockRelease =
      (db₂.setTxnState txnStateNone).setTxnLock 0 := by
    refine if_neg ?_
    rw [sb_schema_setTxnState]
    exact hr₂.not_lt
  have hcleared : Stays db₂ ((db₂.setTxnState txnStateNone).setTxnLock 0) :=
    (stays_setTxnState _).trans (stays_setTxnLock 0)
  rw [hstore, hrelease]
  have hstays := (hleft.trans (hreset.stays hr₁)).trans hcleared
  exact ⟨⟨hstays.schema, hstays.maxSlots, hstays.base⟩, hreset.txnActive.trans hnow⟩

/-- **A commit** ends the handle's transaction.
Source: `ef_txn.c`, `ef_txn_commit` -/
lemma efTxnCommit_does (hr : db.Rooted) : Does .txnCommit db db.efTxnCommit.2 := by
  unfold efTxnCommit
  split_ifs with hact
  · obtain ⟨hstays, hnow⟩ := txnEnd_stays hr
    have hdoes : Does .txnCommit db db.txnEnd := ⟨hstays, .ends hact hnow (.inl rfl)⟩
    exact hdoes.keeps hr (Frame.refl _).setError.toKeeps
  · exact (Frame.refl db).setError.toKeeps.does hr _

/-- The state `ABORTING` is no part of the layout. -/
lemma stays_aborting (hr : db.Rooted) : Stays db db.aborting := by
  have hr' : ({ db with txnState := txnStateAborting } : Db).Rooted := hr
  unfold aborting efSbTxnStateStore
  rw [if_neg hr'.not_lt]
  exact ⟨sb_schema_setTxnState _, load_store_of_disjoint (by omega), rfl⟩

/-- **An abort** ends the handle's transaction.
Source: `ef_txn.c`, `ef_txn_abort` -/
lemma efTxnAbort_does (hr : db.Rooted) : Does .txnAbort db db.efTxnAbort.2 := by
  unfold efTxnAbort
  split_ifs with hact
  · have habort := stays_aborting hr
    have hr₁ := habort.rooted hr
    have hreplay := (refits_efUndoReplayReverse db.aborting).toKeeps
    obtain ⟨hend, hnow⟩ := txnEnd_stays (hreplay.rooted hr₁)
    have hdoes : Does .txnAbort db db.aborting.efUndoReplayReverse.2.txnEnd :=
      ⟨(habort.trans (hreplay.stays hr₁)).trans hend, .ends hact hnow (.inr rfl)⟩
    exact hdoes.keeps hr (Frame.refl _).setError.toKeeps
  · exact (Frame.refl db).setError.toKeeps.does hr _

/-- **What a call does.** -/
lemma TxnOp.does (hr : db.Rooted) (op : TxnOp) : Does op db (op.apply db).2 := by
  cases op with
  | sync => exact efSync_does hr
  | txnBegin => exact efTxnBegin_does hr
  | txnCommit => exact efTxnCommit_does hr
  | txnAbort => exact efTxnAbort_does hr

/-! ### The opens -/

/-- The image is of schema v5, and its slots take less than half of the addresses. -/
structure Roomy (m : Mem) : Prop where
  schema : (Superblock.read m).schemaVersion = schemaVersion
  slots : (Superblock.read m).maxSlots * 64 < 2 ^ 63

/-- A layout with room keeps it. -/
lemma Stays.roomy (h : Stays db db') (hm : Roomy db.mem) : Roomy db'.mem := by
  refine ⟨h.schema.trans hm.schema, ?_⟩
  have hmax : (Superblock.read db'.mem).maxSlots = (Superblock.read db.mem).maxSlots := h.maxSlots
  rw [hmax]
  exact hm.slots

/-- An image with room can be opened with any arguments. -/
lemma Roomy.opening (h : Roomy m) (fileSize mapCapacity : ℕ) (backend : Backend) (env : Env) :
    (fresh m fileSize mapCapacity backend env).Opening := by
  refine ⟨h.schema, ?_, rfl, rfl⟩
  have hsb : schemaVersion ≤ (fresh m fileSize mapCapacity backend env).sb.schemaVersion := h.schema.ge
  have hload : efHashCapacityFromSb m = (Superblock.read m).hashCap := efHashCapacityFromSb_eq hsb
  have hcap : (Superblock.read m).hashCap < 65536 := load_lt m 56 2
  have hslots := h.slots
  show 64 ≤ (64 + efHashCapacityFromSb m * 16 + (Superblock.read m).maxSlots * 64) % u64
  rw [hload, Nat.mod_eq_of_lt (by unfold u64; omega)]
  omega

/-- The last step of both opens. -/
def openedExisting (db : Db) : Err × Db :=
  match db.efDbInitExisting with
  | (.ok, db) => (.ok, db.setError .ok)
  | (err, db) => (err, db)

/-- Recovery keeps the layout of the image that is opened.
Source: `ef_txn.c`, `ef_txn_recover_from_stale_lock` -/
lemma Opening.recovered (h : db.Opening) :
    db.efTxnRecoverFromStaleLock.2.Opening ∧ Stays db db.efTxnRecoverFromStaleLock.2 := by
  by_cases hactive : db.sb.txnState = txnStateActive
  · refine ⟨(efTxnRecoverFromStaleLock_of_active h hactive).1, ?_⟩
    obtain ⟨err, db₂, hrefits, heq⟩ := efTxnRecoverFromStaleLock_eq h hactive
    have hr : (({ db with txnState := txnStateAborting } : Db).setError .ok).Rooted := h.rooted
    have hkeeps := hrefits.toKeeps.stays hr
    have hstays := hkeeps.trans ((stays_setTxnState txnStateNone).trans (stays_setTxnLock 0))
    rw [heq]
    exact ⟨hstays.schema, hstays.maxSlots, hstays.base⟩
  · rw [efTxnRecoverFromStaleLock_of_ne h hactive]
    exact ⟨h, Stays.refl db⟩

/-- An image that does not pass the checks is left as it is. -/
lemma openedExisting_of_invalid (hvalid : efValidateSuperblock db.mem db.fileSize ≠ .ok) :
    db.openedExisting = (efValidateSuperblock db.mem db.fileSize, db) := by
  have hinit : db.efDbInitExisting = (efValidateSuperblock db.mem db.fileSize, db) := by
    unfold efDbInitExisting
    cases hv : efValidateSuperblock db.mem db.fileSize with
    | ok => exact absurd hv hvalid
    | _ => rfl
  unfold openedExisting
  rw [hinit]
  cases hv : efValidateSuperblock db.mem db.fileSize with
  | ok => exact absurd hv hvalid
  | _ => rfl

/-- Whatever comes of the open, the handle is outside a transaction. -/
lemma Opening.opened (h : db.Opening) (hbind : db.efDbBindSlotsLayout = db) :
    db.openedExisting.2.Opening ∧ Stays db db.openedExisting.2 := by
  by_cases hvalid : efValidateSuperblock db.mem db.fileSize = .ok
  · obtain ⟨h₁, hstays⟩ := h.recovered
    unfold openedExisting
    rw [efDbInitExisting_eq h hbind hvalid]
    generalize db.efTxnRecoverFromStaleLock = r at h₁ hstays ⊢
    obtain ⟨err, db₁⟩ := r
    cases err with
    | ok =>
        have hkeeps : Keeps db₁ (db₁.finishOpen.2.setError .ok) :=
          (keeps_finishOpen db₁).trans (Frame.refl _).setError.toKeeps
        have hkeeps₁ := keeps_finishOpen db₁
        simp only
        generalize db₁.finishOpen = r at hkeeps hkeeps₁ ⊢
        obtain ⟨err, db₂⟩ := r
        cases err with
        | ok => exact ⟨h₁.keeps hkeeps, hstays.trans (hkeeps.stays h₁.rooted)⟩
        | _ => exact ⟨h₁.keeps hkeeps₁, hstays.trans (hkeeps₁.stays h₁.rooted)⟩
    | _ => exact ⟨h₁, hstays⟩
  · rw [openedExisting_of_invalid hvalid]
    exact ⟨h, Stays.refl db⟩

/-- What the validation has checked.
Source: `endfields.c`, `ef_validate_superblock` -/
lemma shape_of_valid (h : efValidateSuperblock m size = .ok) :
    efMagicValid m = true ∧ (Superblock.read m).slotSize = 64 := by
  unfold efValidateSuperblock at h
  by_cases hmagic : efMagicValid m = false
  · rw [if_pos hmagic] at h
    cases h
  · refine ⟨Bool.eq_true_of_not_eq_false hmagic, ?_⟩
    by_contra hslot
    rw [if_neg hmagic, if_pos hslot] at h
    cases h

/-- What an open of a v5 image can do: fail before it looks at the image, or check it and go on. -/
lemma openKind_cases (hm : Roomy m) (hsize : size ≠ 0) (env : Env) (kind : OpenKind) :
    ∃ fileSize mapCapacity backend,
      ((kind.run m size env).1 ≠ .ok ∧ (kind.run m size env).2 =
          fresh m fileSize mapCapacity backend env) ∨
      (kind.run m size env = (fresh m fileSize mapCapacity backend env).openedExisting ∧
        (efValidateSuperblock m fileSize = .ok → kind.Accepts m size env)) := by
  cases kind with
  | memory maxSlots cap =>
      unfold OpenKind.run efOpenMemoryHash
      simp only [Bool.false_eq_true, if_false, Bool.not_false, true_and]
      by_cases hprobe : efMagicValid m = true ∧ (Superblock.read m).slotSize = 64
      · have hneed : (OpenKind.memory maxSlots cap).mapSize m size = efExpectedFileSize
            (Superblock.read m).maxSlots (efHashCapacityFromSb m) undoLogDefaultSlots := by
          unfold OpenKind.mapSize
          rw [if_pos hm.schema]
        simp only [hprobe, and_self, decide_true, true_and, if_true, if_pos hm.schema]
        split_ifs with hcap hsmall hmalloc hzero
        · exact ⟨0, size, .memory, .inl ⟨by simp, rfl⟩⟩
        · exact ⟨0, size, .memory, .inl ⟨by simp, rfl⟩⟩
        · exact ⟨0, size, .memory, .inl ⟨by simp, rfl⟩⟩
        · exact ⟨0, size, .memory, .inl ⟨by simp, rfl⟩⟩
        · refine ⟨_, size, .memory, .inr ⟨rfl, fun hvalid => ⟨Bool.eq_true_of_not_eq_false hcap,
            Bool.eq_false_of_not_eq_true hmalloc, ?_, ?_⟩⟩⟩
          · rw [hneed]
            exact Nat.not_lt.mp hsmall
          · rw [hneed]
            exact hvalid
      · simp only [hprobe, decide_false, Bool.false_eq_true, false_and, if_false]
        split_ifs with hcap hsmall hmalloc hzero
        · exact ⟨0, size, .memory, .inl ⟨by simp, rfl⟩⟩
        · exact ⟨0, size, .memory, .inl ⟨by simp, rfl⟩⟩
        · exact ⟨0, size, .memory, .inl ⟨by simp, rfl⟩⟩
        · exact ⟨0, size, .memory, .inl ⟨by simp, rfl⟩⟩
        · exact ⟨_, size, .memory, .inr ⟨rfl, fun hvalid => absurd (shape_of_valid hvalid) hprobe⟩⟩
  | file initialSlots cap =>
      have hv5 : ¬ (fresh m size size .file env).sb.schemaVersion < schemaVersion :=
        (hm.opening size size .file env).schema_not_lt
      refine ⟨size, size, .file, ?_⟩
      unfold OpenKind.run efOpenExHash
      simp only [hsize, decide_false, Bool.false_eq_true, if_false, true_and]
      rw [if_neg hv5]
      split_ifs with hcap hmalloc
      · exact .inl ⟨by simp, rfl⟩
      · exact .inl ⟨by simp, rfl⟩
      · refine .inr ⟨rfl, fun hvalid => ⟨?_, ?_, le_rfl, hvalid⟩⟩
        · exact Bool.eq_true_of_not_eq_false hcap
        · exact Bool.eq_false_of_not_eq_true hmalloc

/-- **What an open does**: it leaves a handle outside a transaction, or none; an image that it does
not accept it leaves as it is. -/
lemma OpenKind.opened (hm : Roomy m) (hsize : size ≠ 0) (env : Env) (kind : OpenKind) :
    Roomy (kind.run m size env).2.mem ∧ (kind.run m size env).2.Opening ∧
      (¬ kind.Accepts m size env → (kind.run m size env).1 ≠ .ok ∧ (kind.run m size env).2.mem =
          m) := by
  obtain ⟨fileSize, mapCapacity, backend, ⟨herr, hfresh⟩ | ⟨hopened, hvalid⟩⟩ :=
    openKind_cases hm hsize env kind
  · rw [hfresh]
    exact ⟨hm, hm.opening fileSize mapCapacity backend env, fun _ => ⟨herr, rfl⟩⟩
  · have hopening := hm.opening fileSize mapCapacity backend env
    obtain ⟨h₁, hstays⟩ := hopening.opened rfl
    rw [hopened]
    refine ⟨hstays.roomy hm, h₁, fun hnot => ?_⟩
    have hinvalid : efValidateSuperblock m fileSize ≠ .ok := fun hv => hnot (hvalid hv)
    rw [openedExisting_of_invalid hinvalid]
    exact ⟨hinvalid, rfl⟩

/-! ### The invariant -/

/-- What holds of the image and its handles after every call: the image and at most one of the
handles are in a transaction together. -/
structure TxnInv (s : Shared ι) : Prop where
  roomy : Roomy s.mem
  size : s.size ≠ 0
  base : ∀ i, ∀ db ∈ s.handle i, 64 ≤ db.undoLogBase
  one : ∀ i j, Active s i → Active s j → i = j
  held : ∀ i, Active s i → Held s.mem

/-- The image and one handle change; the other handles stay. -/
def Shared.setHandle (s : Shared ι) (i : ι) (m : Mem) (o : Option Db) : Shared ι :=
  { s with mem := m, handle := Function.update s.handle i o }

variable {i j : ι} {o : Option Db}

/-- The transaction of the handle that was set. -/
lemma active_setHandle : Active (Shared.setHandle s i m o) i ↔ ∃ db ∈ o, db.txnActive = true := by
  unfold Active Shared.setHandle
  simp only [Function.update_self]

/-- The transactions of the other handles. -/
lemma active_setHandle_of_ne (hne : j ≠ i) : Active (Shared.setHandle s i m o) j ↔ Active s j := by
  unfold Active Shared.setHandle
  simp only [Function.update_of_ne hne]

/-- The undo segments of all handles lie behind the superblock. -/
lemma TxnInv.base_setHandle (h : TxnInv s) (ho : ∀ db ∈ o, 64 ≤ db.undoLogBase) :
    ∀ j, ∀ db ∈ (Shared.setHandle s i m o).handle j, 64 ≤ db.undoLogBase := by
  intro j db hdb
  unfold Shared.setHandle at hdb
  by_cases hj : j = i
  · subst hj
    simp only [Function.update_self] at hdb
    exact ho db hdb
  · simp only [Function.update_of_ne hj] at hdb
    exact h.base j db hdb

/-- A handle that comes to be outside a transaction takes nothing from the others, as long as the
image stays in theirs. -/
lemma TxnInv.setIdle (h : TxnInv s) (hm : Roomy m) (ho : ∀ db ∈ o, 64 ≤ db.undoLogBase ∧
    db.txnActive = false)
    (hheld : ∀ j, j ≠ i → Active s j → Held m) : TxnInv (Shared.setHandle s i m o) := by
  have hidle : ¬ Active (Shared.setHandle s i m o) i := by
    rw [active_setHandle]
    rintro ⟨db, hdb, hact⟩
    rw [(ho db hdb).2] at hact
    cases hact
  have hother : ∀ {j}, Active (Shared.setHandle s i m o) j → j ≠ i ∧ Active s j := by
    intro j hj
    have hne : j ≠ i := by
      rintro rfl
      exact hidle hj
    exact ⟨hne, (active_setHandle_of_ne hne).mp hj⟩
  exact ⟨hm, h.size, h.base_setHandle fun db hdb => (ho db hdb).1,
    fun j k hj hk => h.one j k (hother hj).2 (hother hk).2,
    fun j hj => hheld j (hother hj).1 (hother hj).2⟩

/-! ### One call -/

/-- **An open** that is refused while a handle is in a transaction. -/
lemma TxnInv.opens (h : TxnInv s) {kind : OpenKind} (hc : OpensRefused s (.opens i env kind)) :
    TxnInv (s.opens i env kind) ∧ ∀ j, Active s j → Active (s.opens i env kind) j := by
  unfold Shared.opens
  rcases hi : s.handle i with _ | db
  · obtain ⟨hroomy, hopening, hrefused⟩ := OpenKind.opened h.roomy h.size env kind
    have hrefused' := fun hex => hrefused (hc hi hex)
    simp only
    generalize kind.run s.mem s.size env = r at hroomy hopening hrefused' ⊢
    have hinv : TxnInv (Shared.setHandle s i r.2.mem (if r.1 = .ok then some r.2 else none)) := by
      refine h.setIdle hroomy (fun db hdb => ?_) fun j _ hj => ?_
      · split_ifs at hdb
        · obtain rfl := Option.mem_some_iff.mp hdb
          exact ⟨hopening.base, hopening.inactive⟩
        · cases hdb
      · rw [(hrefused' ⟨j, hj⟩).2]
        exact h.held j hj
    refine ⟨hinv, fun j hj => (active_setHandle_of_ne ?_).mpr hj⟩
    rintro rfl
    obtain ⟨db, hdb, -⟩ := hj
    rw [hi] at hdb
    cases hdb
  · exact ⟨h, fun j hj => hj⟩

/-- **A call through a handle** ends no transaction but its own, and ends that by a commit or an
abort. -/
lemma TxnInv.calls (h : TxnInv s) (op : TxnOp) :
    TxnInv (s.calls i env op.apply) ∧ ∀ j, Active s j → ¬ (i = j ∧ (op = .txnCommit ∨ op = .txnAbort)) →
      Active (s.calls i env op.apply) j := by
  unfold Shared.calls
  rcases hi : s.handle i with _ | db
  · exact ⟨h, fun j hj _ => hj⟩
  have hr : ({ db with mem := s.mem, env := env } : Db).Rooted :=
    ⟨h.roomy.schema.ge, .inr (h.base i db hi)⟩
  obtain ⟨hstays, heffect⟩ := op.does hr
  simp only
  generalize (op.apply { db with mem := s.mem, env := env }).2 = db' at hstays heffect ⊢
  have hroomy : Roomy db'.mem := hstays.roomy h.roomy
  have hbase : 64 ≤ db'.undoLogBase := (h.base i db hi).trans_eq hstays.base.symm
  have hown : Active s i ↔ db.txnActive = true := by
    unfold Active
    rw [hi]
    simp
  have hnew : Active (Shared.setHandle s i db'.mem (some db')) i ↔ db'.txnActive = true := by
    rw [active_setHandle]
    simp
  show TxnInv (Shared.setHandle s i db'.mem (some db')) ∧ _
  rcases heffect with ⟨hact, hlock, hstate⟩ | ⟨hfree, hheld⟩ | ⟨hwas, hnow, hop⟩
  · have hsame : ∀ j, Active (Shared.setHandle s i db'.mem (some db')) j ↔ Active s j := by
      intro j
      by_cases hj : j = i
      · rw [hj, hnew, hown, hact]
      · exact active_setHandle_of_ne hj
    have hheld : Held s.mem → Held db'.mem := fun hs => ⟨hlock.trans_ne hs.1, hstate.trans hs.2⟩
    refine ⟨⟨hroomy, h.size, h.base_setHandle fun d hd => ?_, fun j k hj hk => ?_, fun j hj => ?_⟩,
      fun j hj _ => (hsame j).mpr hj⟩
    · obtain rfl := Option.mem_some_iff.mp hd
      exact hbase
    · exact h.one j k ((hsame j).mp hj) ((hsame k).mp hk)
    · exact hheld (h.held j ((hsame j).mp hj))
  · have hnone : ∀ j, ¬ Active s j := fun j hj => (h.held j hj).1 hfree
    have honly : ∀ j, Active (Shared.setHandle s i db'.mem (some db')) j → j = i := by
      intro j hj
      by_contra hne
      exact hnone j ((active_setHandle_of_ne hne).mp hj)
    refine ⟨⟨hroomy, h.size, h.base_setHandle fun d hd => ?_, fun j k hj hk => ?_, fun _ _ => hheld⟩,
      fun j hj => absurd hj (hnone j)⟩
    · obtain rfl := Option.mem_some_iff.mp hd
      exact hbase
    · exact (honly j hj).trans (honly k hk).symm
  · have honly : ∀ j, Active s j → j = i := fun j hj => h.one j i hj (hown.mpr hwas)
    refine ⟨h.setIdle hroomy (fun d hd => ?_) fun j hne hj => absurd (honly j hj) hne,
      fun j hj hends => absurd ⟨(honly j hj).symm, hop⟩ hends⟩
    obtain rfl := Option.mem_some_iff.mp hd
    exact ⟨hbase, hnow⟩

/-! ### Whole runs -/

omit [DecidableEq ι] in
/-- The invariant holds of an image that nobody has opened. -/
lemma TxnInv.start (himage : Image m size) (hsize : size < 2 ^ 63) :
    TxnInv (⟨m, size, fun _ => none⟩ : Shared ι) := by
  have hfits := himage.fits
  have hslots : (Superblock.read m).maxSlots * 64 < 2 ^ 63 := by omega
  have hidle : ∀ i : ι, ¬ Active ⟨m, size, fun _ => none⟩ i := by
    rintro i ⟨db, hdb, -⟩
    cases hdb
  refine ⟨⟨himage.schema, hslots⟩, ?_, ?_, fun i _ hi => absurd hi (hidle i),
    fun i hi => absurd hi (hidle i)⟩
  · show size ≠ 0
    omega
  · intro i db hdb
    cases hdb

/-- **A call** keeps the invariant, and a transaction that it does not end. -/
lemma TxnInv.run (h : TxnInv s) {c : SharedCall ι} (hc : OpensRefused s c) :
    TxnInv (c.run s) ∧ ∀ j, Active s j → ¬ c.Ends j → Active (c.run s) j := by
  cases c with
  | opens i env kind =>
      obtain ⟨hinv, hlasts⟩ := h.opens hc
      exact ⟨hinv, fun j hj _ => hlasts j hj⟩
  | calls i env op => exact h.calls op

/-- **Transactions exclude each other** in every run in which no open accepts the image while a
handle is in a transaction: at most one handle is in one at any time, and only its own commit or
abort ends it.
Source: `ef_txn.c`, `ef_txn_begin`, `ef_txn_commit`, `ef_txn_abort`; `endfields.c`,
`ef_db_init_mapped` -/
theorem sharedRun_exclusive (h : SharedRun OpensRefused s) : Exclusive OpensRefused s := by
  have hinv : TxnInv s := by
    induction h with
    | start m size himage hsize => exact TxnInv.start himage hsize
    | step s h c hc ih => exact (ih.run hc).1
  refine ⟨hinv.one, hinv.held, fun i c hc hi hends => ?_⟩
  obtain ⟨hinv', hlasts⟩ := hinv.run hc
  have hi' := hlasts i hi hends
  exact ⟨hi', hinv'.held i hi'⟩

instance (s : Shared ι) (i : ι) : Decidable (Active s i) :=
  inferInstanceAs (Decidable (∃ db ∈ s.handle i, db.txnActive = true))

instance (m : Mem) (size : ℕ) (env : Env) (kind : OpenKind) : Decidable (kind.Accepts m size env) :=
  inferInstanceAs (Decidable (_ ∧ _ ∧ _ ∧ _))

/-- A database of one slot, on which no handle is open yet. -/
def unopened : Shared Bool := ⟨leftBehind 0 0, 131232, fun _ => none⟩

/-- Nobody has opened the image. -/
lemma unopened_run (cond : Shared Bool → SharedCall Bool → Prop) : SharedRun cond unopened := by
  refine .start _ _ ⟨?_, ?_, ?_⟩ (by norm_num) <;> decide +kernel

/-- The open of that database in its buffer. -/
def openCall (i : Bool) : SharedCall Bool := .opens i Env.quiet (.memory 1 0)

/-- One handle begins a transaction. -/
def begun : Shared Bool := (SharedCall.calls false Env.quiet .txnBegin).run
    ((openCall false).run unopened)

/-- The image of a transaction that has not been synced is refused. -/
lemma not_accepts_begun : ¬ (OpenKind.memory 1 0).Accepts begun.mem begun.size Env.quiet := by
  decide +kernel

/-- The transaction lasts when another handle tries to open the image, whose checksum is the one of
before the transaction. -/
theorem sharedRun_exclusive_of_begun : Active begun false ∧ Exclusive OpensRefused
    ((openCall true).run begun) := by
  refine ⟨by decide +kernel, sharedRun_exclusive
      (.step begun (.step _ (.step _ (unopened_run _) _ ?_) _ trivial)
    (openCall true) fun _ _ => not_accepts_begun)⟩
  rintro - ⟨i, db, hdb, -⟩
  cases hdb

/-- A transaction begins, `ef_sync` brings the checksum up to date, and another handle opens the
image and begins a transaction of its own. -/
def twoHandles : Shared Bool :=
  (SharedCall.calls true Env.quiet .txnBegin).run
    ((openCall true).run ((SharedCall.calls false Env.quiet .sync).run begun))

/-- Without the condition, two handles are in a transaction. -/
theorem sharedRun_two_active :
    ¬ ∀ s : Shared Bool, SharedRun (fun _ _ => True) s → Exclusive (fun _ _ => True) s := by
  intro hall
  have hrun : SharedRun (fun _ _ => True) twoHandles :=
    .step _ (.step _ (.step _ (.step _ (.step _
        (unopened_run _) _ trivial) _ trivial) _ trivial) _ trivial)
      _ trivial
  have hboth : Active twoHandles false ∧ Active twoHandles true := by decide +kernel
  have hone := (hall twoHandles hrun).one false true hboth.1 hboth.2
  cases hone

end Db

end Endfields.Model
