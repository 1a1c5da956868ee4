import Endfields.Recovery.Idle
import Endfields.Reopen.Stages
import Endfields.Spec.Replay

/-!
# Recovery from a torn log

The undo segment is not covered by the superblock checksum, and its header has a checksum of its
own. The recovery that an open runs on an image left in a transaction looks at the header's magic
word and tail.

* `Db.recoveryReads`: the positions of the records that recovery replays (`replayLoop_eq_replayAt`).
* `RecoversSafely`: every record lies in the log, and a header that is not valid changes nothing.
* `LogSound`: no record is reached, or the tail is one of a log and the header is valid.
* **`Db.recoversSafely_iff`**: recovery is safe for whatever the records hold, exactly if the header
  is sound.
* `Db.recovery_trusts_header`: a tail that is not aligned, and a header without a checksum.
-/

namespace Endfields.Model

open Endfields.Lib

namespace Db

/-! ### What the replay reads -/

/-- The positions of the records that the loop of the replay reads, in this order.
Source: `ef_undo.c`, the loop of `ef_undo_replay_reverse` -/
def replayReads (h : ℕ) : ℕ → ℕ → Db → List ℕ
  | 0, _, _ => []
  | fuel + 1, pos, db =>
      if pos ≤ 32 then []
      else
        (pos - 32) ::
          match db.replayRecord (h + (pos - 32)) with
          | (.ok, db) => replayReads h fuel (pos - 32) db
          | (_, _) => []

/-- Replay the records at the given positions, up to the first one that fails. -/
def replayAt (h : ℕ) : List ℕ → Db → Err × Db
  | [], db => (.ok, db)
  | off :: offs, db =>
      match db.replayRecord (h + off) with
      | (.ok, db) => replayAt h offs db
      | (err, db) => (err, db)

/-- The positions that recovery reads, on a handle that it finds in a transaction.
Source: `ef_txn.c`, `ef_txn_recover_from_stale_lock`; `ef_undo.c`, `ef_undo_replay_reverse` -/
def recoveryReads (db : Db) : List ℕ :=
  if db.sb.schemaVersion < schemaVersion ∨ db.efSbTxnStateLoad ≠ txnStateActive then []
  else
    let db := ({ db with txnState := txnStateAborting } : Db).setError .ok
    match db.efUndoHeaderPtr with
    | none => []
    | some h =>
        if load db.mem h 4 = 0 then []
        else replayReads h (load db.mem (h + 8) 8 / 32 + 1) (load db.mem (h + 8) 8) db

variable {db db' y : Db} {m m' : Mem} {size : ℕ} {g : Geometry}

/-- The loop replays the records at just these positions. -/
lemma replayLoop_eq_replayAt (h fuel pos : ℕ) (db : Db) :
    replayLoop h fuel pos db = replayAt h (replayReads h fuel pos db) db := by
  induction fuel generalizing pos db with
  | zero => rfl
  | succ fuel ih =>
      unfold replayLoop replayReads
      by_cases hpos : pos ≤ 32
      · rw [if_pos hpos, if_pos hpos]
        rfl
      rw [if_neg hpos, if_neg hpos]
      unfold replayAt
      generalize db.replayRecord (h + (pos - 32)) = r
      obtain ⟨err, db₁⟩ := r
      cases err with
      | ok => exact ih (pos - 32) db₁
      | _ => rfl

/-- From an aligned position the loop stays aligned, and above the header. -/
lemma mem_replayReads {h fuel pos off : ℕ} (halign : 32 ∣ pos)
    (hoff : off ∈ replayReads h fuel pos db) :
    32 ∣ off ∧ 32 ≤ off ∧ off + 32 ≤ pos := by
  induction fuel generalizing pos db with
  | zero => cases hoff
  | succ fuel ih =>
      unfold replayReads at hoff
      by_cases hpos : pos ≤ 32
      · rw [if_pos hpos] at hoff
        cases hoff
      rw [if_neg hpos] at hoff
      have halign' : 32 ∣ pos - 32 := Nat.dvd_sub halign (Nat.dvd_refl 32)
      rcases List.mem_cons.1 hoff with rfl | htail
      · refine ⟨halign', ?_, by omega⟩
        obtain ⟨k, rfl⟩ := halign
        omega
      · generalize db.replayRecord (h + (pos - 32)) = r at htail
        obtain ⟨err, db₁⟩ := r
        cases err with
        | ok =>
            obtain ⟨hdvd, hge, hle⟩ := ih halign' htail
            exact ⟨hdvd, hge, by omega⟩
        | _ => cases htail

end Db

/-! ### Safe recovery -/

/-- The slots, the index and the queue are as they were. -/
structure SameContent (db db' : Db) : Prop where
  slots : ∀ i, i < db.sb.maxSlots → db'.slot i = db.slot i
  capacity : db'.hashCapacity = db.hashCapacity
  entries : ∀ b, b < db.hashCapacity → db'.entry b = db.entry b
  queueHead : db'.sb.queueHead = db.sb.queueHead
  queueTail : db'.sb.queueTail = db.sb.queueTail

/-- Recovery reads aligned records in the log only, and a header that is not valid changes
nothing. -/
structure RecoversSafely (db : Db) : Prop where
  inside : ∀ off ∈ db.recoveryReads, 32 ∣ off ∧ 32 ≤ off ∧ off < 32 + 32 * db.undoLogSlots
  torn : efUndoHeaderValid db.undoHeader = false → SameContent db db.efTxnRecoverFromStaleLock.2

/-- A header that recovery can be left to: it leads to no record, or it is the valid header of a
log. -/
def LogSound (h : UndoHeader) : Prop :=
  h.magic = 0 ∨ h.tail ≤ 32 ∨
    (32 ∣ h.tail ∧ h.tail ≤ undoLogBytes undoLogDefaultSlots ∧ efUndoHeaderValid h = true)

/-- A v5 image that the validation accepts and that was left in a transaction. Its layout does not
wrap around the 64-bit size. -/
structure LeftActive (m : Mem) (size : ℕ) : Prop where
  valid : efValidateSuperblock m size = .ok
  schema : (Superblock.read m).schemaVersion = schemaVersion
  active : (Superblock.read m).txnState = txnStateActive
  fits : 64 + 16 * (Superblock.read m).hashCap + 64 * (Superblock.read m).maxSlots +
    undoLogBytes undoLogDefaultSlots < u64

/-- The address of the undo segment. -/
def logStart (m : Mem) : ℕ := 64 + 16 * (Superblock.read m).hashCap + 64 * (Superblock.read m).maxSlots

/-- The images differ in the records of the log only. -/
def SameButRecords (m m' : Mem) : Prop :=
  ∀ x, x < logStart m + 32 ∨ logStart m + undoLogBytes undoLogDefaultSlots ≤ x → m' x = m x

variable {m m' : Mem} {size : ℕ} {db db₀ db₁ y : Db} {g : Geometry}

/-- The layout of the image. -/
def LeftActive.geometry (h : LeftActive m size) : Geometry where
  cap := (Superblock.read m).hashCap
  n := (Superblock.read m).maxSlots
  fits := h.fits

/-- The image is as long as its geometry says. -/
lemma LeftActive.size_eq (h : LeftActive m size) : size = h.geometry.size := by
  have hexact := (efValidateSuperblock_ok_iff.1 h.valid).exact_size h.schema
  have hfits := h.fits
  refine hexact.trans ?_
  unfold v5Size efExpectedFileSize
  rw [Db.efHashCapacityFromSb_read h.schema]
  unfold Geometry.size Geometry.undoBase Geometry.base geometry
  simp only [undoLogBytes, undoLogDefaultSlots] at hfits ⊢
  rw [Nat.mod_eq_of_lt (by omega)]
  ring

/-- The superblock lies in front of the log. -/
lemma SameButRecords.superblock (h : SameButRecords m m') : Superblock.read m' = Superblock.read m := by
  apply Superblock.read_congr
  intro x hx
  refine h x (.inl ?_)
  unfold logStart
  omega

/-- The log's header is the same. -/
lemma SameButRecords.header (h : SameButRecords m m') :
    UndoHeader.read m' (logStart m) = UndoHeader.read m (logStart m) := by
  have hload : ∀ k w, k + w ≤ 32 → load m' (logStart m + k) w = load m (logStart m + k) w := by
    intro k w hkw
    apply load_congr
    intro x _ hx
    exact h x (.inl (by omega))
  have hpad : readBytes m' (logStart m + 24) 8 = readBytes m (logStart m + 24) 8 := by
    apply readBytes_congr
    intro x _ hx
    exact h x (.inl (by omega))
  have hmagic := hload 0 4 (by decide)
  rw [Nat.add_zero] at hmagic
  unfold UndoHeader.read
  rw [hmagic, hload 4 4 (by decide), hload 8 8 (by decide), hload 16 4 (by decide),
    hload 20 4 (by decide), hpad]

/-- The handle that recovery runs on. -/
lemma LeftActive.ok_fresh (h : LeftActive m size) (hsame : SameButRecords m m') (cap : ℕ)
    (backend : Backend) (env : Env) :
    ((Db.fresh m' size cap backend env).view h.geometry).Ok h.geometry := by
  have hsb := hsame.superblock
  refine Db.efDbBindSlotsLayout_ok ?_ ?_ ?_ h.size_eq rfl
  · exact congrArg Superblock.maxSlots hsb
  · exact (congrArg Superblock.schemaVersion hsb).trans h.schema
  · exact congrArg Superblock.hashCap hsb

/-! ### Recovery of a handle -/

namespace Db

/-- After the replay, recovery clears the log and the two transaction bytes. -/
lemma recover_eq (h : (db.view g).Ok g) (hactive : db.sb.txnState = txnStateActive) {err : Err}
    (hreplay : (({ db with txnState := txnStateAborting } : Db).setError .ok).efUndoReplayReverse =
      (err, y)) (hy : (y.view g).Ok g) :
    db.efTxnRecoverFromStaleLock.2.hashCapacity = y.hashCapacity ∧
      ∀ x, x < g.undoBase → x ≠ 60 → x ≠ 61 → db.efTxnRecoverFromStaleLock.2.mem x = y.mem x := by
  have hge : ¬ db.sb.schemaVersion < schemaVersion := not_lt.2 (Eq.ge h.schema)
  have hbase : y.undoLogBase = g.undoBase := hy.undoBase
  have hundo := g.base_ge
  have hub : g.base ≤ g.undoBase := by
    unfold Geometry.undoBase
    omega
  have hreset : ∀ x, x < g.undoBase → y.efUndoReset.mem x = y.mem x := by
    intro x hx
    unfold efUndoReset efUndoHeaderPtr
    rw [hbase, if_neg (by omega)]
    exact memset_apply_of_outside (.inl hx)
  have hcap : y.efUndoReset.hashCapacity = y.hashCapacity := (sized_efUndoReset y).hashCapacity
  have hsb : y.efUndoReset.sb.schemaVersion = schemaVersion := by
    have hys : y.sb.schemaVersion = schemaVersion := hy.schema
    rw [← hys]
    exact load_congr fun x _ hx => hreset x (by omega)
  unfold efTxnRecoverFromStaleLock efSbTxnStateLoad
  rw [if_neg hge, if_neg hge, if_neg (not_not.2 hactive)]
  dsimp only
  rw [hreplay]
  dsimp only
  generalize y.efUndoReset = z at hreset hcap hsb ⊢
  have hz : ¬ z.sb.schemaVersion < schemaVersion := not_lt.2 hsb.ge
  have hstate : z.efSbTxnStateStore txnStateNone = z.setTxnState txnStateNone := if_neg hz
  have hlock : (z.setTxnState txnStateNone).efSbTxnLockRelease =
      (z.setTxnState txnStateNone).setTxnLock 0 := by
    refine if_neg ?_
    rw [sb_schema_setTxnState]
    exact hz
  rw [hstate, hlock]
  refine ⟨hcap, ?_⟩
  intro x hx h60 h61
  refine (store_apply_of_outside (by omega)).trans ((store_apply_of_outside (by omega)).trans ?_)
  exact hreset x hx

/-- A log without records is not replayed. -/
lemma recover_of_unread (h : (db.view g).Ok g) (hactive : db.sb.txnState = txnStateActive)
    (hnone : db.undoHeader.magic = 0 ∨ db.undoHeader.tail ≤ 32) :
    db.recoveryReads = [] ∧ SameContent db db.efTxnRecoverFromStaleLock.2 := by
  have hge : ¬ db.sb.schemaVersion < schemaVersion := not_lt.2 (Eq.ge h.schema)
  have hbase : db.undoLogBase = g.undoBase := h.undoBase
  have hcapg : db.hashCapacity = g.cap := h.cap
  have hmax : db.sb.maxSlots = g.n := h.maxSlots
  have hne : db.undoLogBase ≠ 0 := by
    have hb := g.base_ge
    rw [hbase]
    unfold Geometry.undoBase
    omega
  have hload : load db.mem db.undoLogBase 4 = 0 ∨ load db.mem (db.undoLogBase + 8) 8 ≤ 32 := hnone
  have hptr : (({ db with txnState := txnStateAborting } : Db).setError .ok).efUndoHeaderPtr =
      some db.undoLogBase := if_neg hne
  refine ⟨?_, ?_⟩
  · unfold recoveryReads efSbTxnStateLoad
    rw [if_neg hge, if_neg (by rw [not_or, not_not]; exact ⟨hge, hactive⟩)]
    simp only [hptr]
    show (if load db.mem db.undoLogBase 4 = 0 then [] else _) = []
    split_ifs with h0
    · rfl
    · unfold replayReads
      exact if_pos (hload.resolve_left h0)
  · have hreplay : (({ db with txnState := txnStateAborting } : Db).setError .ok).efUndoReplayReverse =
        (.ok, ({ db with txnState := txnStateAborting } : Db).setError .ok) := by
      unfold efUndoReplayReverse
      simp only [hptr]
      show (if load db.mem db.undoLogBase 4 = 0 then _ else _) = _
      split_ifs with h0
      · rfl
      · unfold replayLoop
        exact if_pos (hload.resolve_left h0)
    obtain ⟨hcap, hmem⟩ := recover_eq h hactive hreplay h
    generalize db.efTxnRecoverFromStaleLock.2 = db' at hcap hmem ⊢
    have hcap' : db'.hashCapacity = db.hashCapacity := hcap
    have hmem' : ∀ x, x < g.undoBase → x ≠ 60 → x ≠ 61 → db'.mem x = db.mem x := hmem
    have hbase' : db'.slotsBase = g.base := by
      rw [db'.slotsBase_eq, hcap', hcapg]
      unfold Geometry.base
      ring
    have hbase₀ : db.slotsBase = g.base := by
      rw [db.slotsBase_eq, hcapg]
      unfold Geometry.base
      ring
    have hb := g.base_ge
    unfold Geometry.undoBase at hmem'
    refine ⟨?_, hcap', ?_, ?_, ?_⟩
    · intro i hi
      rw [hmax] at hi
      unfold slot slotAt slotPtr
      rw [hbase', hbase₀]
      apply Slot.read_congr
      intro x hx hx'
      exact hmem' x (by omega) (by omega) (by omega)
    · intro b hlt
      rw [hcapg] at hlt
      unfold Geometry.base at hmem'
      unfold entry
      apply HashEntry.read_congr
      intro x hx hx'
      exact hmem' x (by omega) (by omega) (by omega)
    · apply load_congr
      intro x hx hx'
      exact hmem' x (by omega) (by omega) (by omega)
    · apply load_congr
      intro x hx hx'
      exact hmem' x (by omega) (by omega) (by omega)

/-- What recovery reads of a log with a tail. -/
lemma recoveryReads_eq (h : (db.view g).Ok g) (hactive : db.sb.txnState = txnStateActive)
    (hmagic : db.undoHeader.magic ≠ 0) :
    db.recoveryReads = replayReads g.undoBase (db.undoHeader.tail / 32 + 1) db.undoHeader.tail
      (({ db with txnState := txnStateAborting } : Db).setError .ok) := by
  have hge : ¬ db.sb.schemaVersion < schemaVersion := not_lt.2 (Eq.ge h.schema)
  have hbase : db.undoLogBase = g.undoBase := h.undoBase
  have hne : db.undoLogBase ≠ 0 := by
    have hb := g.base_ge
    rw [hbase]
    unfold Geometry.undoBase
    omega
  have hptr : (({ db with txnState := txnStateAborting } : Db).setError .ok).efUndoHeaderPtr =
      some db.undoLogBase := if_neg hne
  have hmagic' : load db.mem db.undoLogBase 4 ≠ 0 := hmagic
  unfold recoveryReads efSbTxnStateLoad
  rw [if_neg hge, if_neg (by rw [not_or, not_not]; exact ⟨hge, hactive⟩)]
  simp only [hptr]
  show (if load db.mem db.undoLogBase 4 = 0 then [] else _) = _
  rw [if_neg hmagic', hbase]
  show replayReads g.undoBase (load db.mem (g.undoBase + 8) 8 / 32 + 1)
    (load db.mem (g.undoBase + 8) 8) _ = _
  unfold undoHeader UndoHeader.read
  rw [hbase]

/-! ### A log with one record -/

/-- A record of no kind is skipped. -/
lemma undoes_none (h : (db.view g).Ok g) {r : UndoRec} (hkind : r.kind = none) :
    UndoesTo g r db db where
  replay a hread := by
    have hk : UndoKind.ofCode (load db.mem a 1) = none := by
      rw [← hkind, ← hread]
      rfl
    unfold replayRecord
    rw [hk]
  ok := h
  seg := rfl

/-- Records of no kind undo nothing.
Source: `ef_undo.c`, `ef_undo_replay_reverse` -/
lemma undone_none (h : (db.view g).Ok g) (rs : List UndoRec) (hkind : ∀ r ∈ rs, r.kind = none) :
    Undone (UndoesTo g) rs db db := by
  induction rs with
  | nil => rfl
  | cons r rs ih =>
      refine ⟨db, ih fun r' hr' => hkind r' (List.mem_cons_of_mem r hr'), ?_⟩
      exact undoes_none h (hkind r List.mem_cons_self)

end Db

/-- The image whose log has one record, at position `32 + 32 * j`: it sets the link of slot 0. -/
def loneRecord (m : Mem) (j next : ℕ) : Mem :=
  ((Db.fresh (memset m (logStart m + 32) 0 (32 * undoLogDefaultSlots)) 0 0 .memory
    Env.quiet).writeUndoRecord (logStart m + (32 + 32 * j)) .slotNext
      (64 + 16 * (Superblock.read m).hashCap) 0 (leBytes 8 next ++ List.replicate 4 0)).mem

variable {j next : ℕ}

/-- The `before` of the record takes its 12 bytes. -/
lemma length_before (next : ℕ) : (leBytes 8 next ++ List.replicate 4 (0 : UInt8)).length = 12 := by
  rw [List.length_append, length_leBytes, List.length_replicate]

/-- The record is written inside the log. -/
lemma sameButRecords_loneRecord (hj : j < undoLogDefaultSlots) : SameButRecords m
    (loneRecord m j next) := by
  intro x hx
  have hcleared : memset m (logStart m + 32) 0 (32 * undoLogDefaultSlots) x = m x := by
    simp only [undoLogBytes] at hx
    exact memset_apply_of_outside (by omega)
  unfold loneRecord
  generalize memset m (logStart m + 32) 0 (32 * undoLogDefaultSlots) = cleared at hcleared ⊢
  simp only [undoLogBytes, undoLogDefaultSlots] at hj hx
  exact (Db.writeUndoRecord_mem_of_outside (length_before next) (by omega)).trans hcleared

/-- The record is read back. -/
lemma read_loneRecord :
    UndoRec.read (loneRecord m j next) (logStart m + (32 + 32 * j)) =
      ⟨some .slotNext, (64 + 16 * (Superblock.read m).hashCap) % u64, 0,
        leBytes 8 next ++ List.replicate 4 0⟩ := by
  unfold loneRecord
  rw [Db.read_writeUndoRecord _ _ (length_before next)]
  rfl

/-- The other records are of no kind. -/
lemma kind_loneRecord {i : ℕ} (hi : i < undoLogDefaultSlots) (hij : i ≠ j) :
    (UndoRec.read (loneRecord m j next) (logStart m + (32 + 32 * i))).kind = none := by
  have hzero : load (loneRecord m j next) (logStart m + (32 + 32 * i)) 1 = 0 := by
    apply load_eq_zero
    intro x hx hx'
    have hcleared : memset m (logStart m + 32) 0 (32 * undoLogDefaultSlots) x = 0 := by
      simp only [undoLogDefaultSlots] at hi
      exact memset_apply_of_inside (by omega) (by simp only [undoLogDefaultSlots]; omega)
    unfold loneRecord
    generalize memset m (logStart m + 32) 0 (32 * undoLogDefaultSlots) = cleared at hcleared ⊢
    exact (Db.writeUndoRecord_mem_of_outside (length_before next) (by omega)).trans hcleared
  unfold UndoRec.read
  rw [hzero]
  rfl

namespace Db

/-- **Recovery replays the record.** -/
lemma next_recovered (h : LeftActive m size) (hslots : 0 < (Superblock.read m).maxSlots)
    (hj : j < undoLogDefaultSlots) (hnext : next < u64)
    (hmagic : (UndoHeader.read m (logStart m)).magic ≠ 0)
    (htail : (UndoHeader.read m (logStart m)).tail = 32 + 32 * (j + 1)) (cap : ℕ)
    (backend : Backend) (env : Env) :
    ((fresh (loneRecord m j next) size cap backend env).efTxnRecoverFromStaleLock.2.slot 0).nextOffset =
      next := by
  have hsame : SameButRecords m (loneRecord m j next) := sameButRecords_loneRecord hj
  have hok : ((fresh (loneRecord m j next) size cap backend env).view h.geometry).Ok h.geometry :=
    h.ok_fresh hsame cap backend env
  have hactive : (fresh (loneRecord m j next) size cap backend env).sb.txnState = txnStateActive :=
    (congrArg Superblock.txnState hsame.superblock).trans h.active
  have hheader : UndoHeader.read (loneRecord m j next) (logStart m) =
      UndoHeader.read m (logStart m) := hsame.header
  have hmem : (fresh (loneRecord m j next) size cap backend env).mem = loneRecord m j next := rfl
  generalize fresh (loneRecord m j next) size cap backend env = db at hok hactive hmem ⊢
  set g := h.geometry with hg
  have hstart : g.undoBase = logStart m := rfl
  -- the handle on which the replay starts
  have hok₀ : ((({ db with txnState := txnStateAborting } : Db).setError .ok).view g).Ok g := hok
  have hmem₀ : (({ db with txnState := txnStateAborting } : Db).setError .ok).mem =
      loneRecord m j next :=
    hmem
  obtain ⟨y, hreplay, hyok, hynext⟩ : ∃ y,
      (({ db with txnState := txnStateAborting } : Db).setError .ok).efUndoReplayReverse = (.ok, y) ∧
        (y.view g).Ok g ∧ ((y.view g).slots 0).nextOffset = next := by
    generalize ({ db with txnState := txnStateAborting } : Db).setError .ok = x at hok₀ hmem₀ ⊢
    have hvalid : (SlotRec.next 0 next).Valid g := ⟨hslots, hnext⟩
    obtain ⟨y, hundoes, hview, -⟩ := undoes_slotRec hok₀ hvalid
    have hlog : (x.view g).seg.log (j + 1) =
        (x.view g).seg.log j ++ [(SlotRec.next 0 next).encode g] := by
      unfold Segment.log
      rw [List.range_succ, List.map_append, List.map_singleton]
      have hread : UndoRec.read (x.view g).seg.bytes (32 + 32 * j) =
          UndoRec.read x.mem (g.undoBase + (32 + 32 * j)) := UndoRec.read_segment g x.mem _
      rw [hread, hmem₀, hstart, read_loneRecord]
      have hptr : (64 + 16 * (Superblock.read m).hashCap) % u64 = g.ptr 0 := by
        have hlt := g.size_lt
        have heq := g.size_eq
        have hle := g.ptr_lt hslots
        exact Nat.mod_eq_of_lt (show g.ptr 0 < u64 by omega)
      rw [hptr]
      rfl
    have hblank : Undone (UndoesTo g) ((x.view g).seg.log j) y y := by
      refine undone_none hundoes.ok _ ?_
      intro r hr
      obtain ⟨i, hi, rfl⟩ := List.mem_map.1 hr
      rw [List.mem_range] at hi
      have hread : UndoRec.read (x.view g).seg.bytes (32 + 32 * i) =
          UndoRec.read x.mem (g.undoBase + (32 + 32 * i)) := UndoRec.read_segment g x.mem _
      rw [hread, hmem₀, hstart]
      exact kind_loneRecord (by omega) (by omega)
    have hundone : Undone (UndoesTo g) ((x.view g).seg.log (j + 1)) x y := by
      rw [hlog, undone_append]
      exact ⟨y, undone_singleton.2 hundoes, hblank⟩
    have hlen : ((x.view g).seg.log (j + 1)).length = j + 1 := by
      unfold Segment.log
      rw [List.length_map, List.length_range]
    refine ⟨y, ?_, hundoes.ok, ?_⟩
    · have hbase : x.undoLogBase = g.undoBase := hok₀.undoBase
      have hne : x.undoLogBase ≠ 0 := by
        have hb := g.base_ge
        rw [hbase]
        unfold Geometry.undoBase
        omega
      have hm : load x.mem g.undoBase 4 ≠ 0 := by
        rw [hmem₀, hstart]
        exact (congrArg UndoHeader.magic hheader).trans_ne hmagic
      have ht : load x.mem (g.undoBase + 8) 8 = 32 + 32 * (j + 1) := by
        rw [hmem₀, hstart]
        exact (congrArg UndoHeader.tail hheader).trans htail
      unfold efUndoReplayReverse efUndoHeaderPtr
      rw [if_neg hne, hbase]
      dsimp only
      rw [if_neg hm, ht]
      have hloop := replayLoop_of_undone ((32 + 32 * (j + 1)) / 32 + 1) (by rw [hlen]; omega)
        (by rw [hlen]) hundone
      rwa [hlen] at hloop
    · rw [hview]
      unfold View.undo
      rw [View.setSlot_slots, Function.update_self, Slot.sealed_nextOffset]
  obtain ⟨hcap, hmemy⟩ := recover_eq hok hactive hreplay hyok
  generalize db.efTxnRecoverFromStaleLock.2 = db' at hcap hmemy ⊢
  have hcapy : y.hashCapacity = g.cap := hyok.cap
  have hptr : g.ptr 0 + 64 ≤ g.undoBase := g.ptr_lt hslots
  have hge : 64 ≤ g.ptr 0 := g.base_ge.trans (g.base_le_ptr 0)
  have hslot' : db'.slotPtr 0 = g.ptr 0 := by
    unfold slotPtr
    rw [db'.slotsBase_eq, hcap, hcapy]
    unfold Geometry.ptr Geometry.base
    ring
  have hread : db'.slot 0 = y.slot 0 := by
    unfold slot slotAt
    rw [hslot', slotPtr_eq hyok.cap]
    apply Slot.read_congr
    intro x hx hx'
    exact hmemy x (by omega) (by omega) (by omega)
  rw [hread, slot_eq hyok.cap hslots]
  exact hynext

end Db

/-- The log of an image, as the fresh handle has it. -/
lemma LeftActive.undoHeader_fresh (h : LeftActive m size) (hsame : SameButRecords m m') (cap : ℕ)
    (backend : Backend) (env : Env) :
    (Db.fresh m' size cap backend env).undoHeader = UndoHeader.read m (logStart m) ∧
      (Db.fresh m' size cap backend env).undoLogSlots = undoLogDefaultSlots ∧
        (Db.fresh m' size cap backend env).sb.txnState = txnStateActive := by
  have hok := h.ok_fresh hsame cap backend env
  have hbase : (Db.fresh m' size cap backend env).undoLogBase = logStart m := hok.undoBase
  refine ⟨?_, hok.undoSlots, (congrArg Superblock.txnState hsame.superblock).trans h.active⟩
  unfold Db.undoHeader
  rw [hbase]
  exact hsame.header

/-- A sound header is safe. -/
lemma LeftActive.recoversSafely (h : LeftActive m size) (hsame : SameButRecords m m') (cap : ℕ)
    (backend : Backend) (env : Env) (hsound : LogSound (UndoHeader.read m (logStart m))) :
    RecoversSafely (Db.fresh m' size cap backend env) := by
  have hok := h.ok_fresh hsame cap backend env
  obtain ⟨hheader, hslots, hactive⟩ := h.undoHeader_fresh hsame cap backend env
  generalize Db.fresh m' size cap backend env = db at hok hactive hslots hheader ⊢
  rw [← hheader] at hsound
  by_cases hnone : db.undoHeader.magic = 0 ∨ db.undoHeader.tail ≤ 32
  · obtain ⟨hreads, hcontent⟩ := Db.recover_of_unread hok hactive hnone
    refine ⟨?_, fun _ => hcontent⟩
    rw [hreads]
    exact fun off hoff => absurd hoff List.not_mem_nil
  · rw [not_or] at hnone
    obtain ⟨halign, hle, hvalid⟩ := (hsound.resolve_left hnone.1).resolve_left hnone.2
    refine ⟨?_, fun hinvalid => absurd hvalid (by rw [hinvalid]; decide)⟩
    intro off hoff
    rw [Db.recoveryReads_eq hok hactive hnone.1] at hoff
    obtain ⟨hdvd, hge, htop⟩ := Db.mem_replayReads halign hoff
    simp only [undoLogBytes, undoLogDefaultSlots] at hle hslots
    exact ⟨hdvd, hge, by omega⟩

/-- If the records that are read lie in the log, the tail is the end of one of them. -/
lemma LeftActive.tail_of_inside (h : LeftActive m size) (cap : ℕ) (backend : Backend) (env : Env)
    (hinside : ∀ off ∈ (Db.fresh m size cap backend env).recoveryReads,
      32 ∣ off ∧ 32 ≤ off ∧ off < 32 + 32 * (Db.fresh m size cap backend env).undoLogSlots)
    (hmagic : (UndoHeader.read m (logStart m)).magic ≠ 0)
    (htail : ¬ (UndoHeader.read m (logStart m)).tail ≤ 32) :
    ∃ j, j < undoLogDefaultSlots ∧ (UndoHeader.read m (logStart m)).tail = 32 + 32 * (j + 1) := by
  have hok := h.ok_fresh (fun _ _ => rfl) cap backend env
  obtain ⟨hheader, hslots, hactive⟩ := h.undoHeader_fresh (fun _ _ => rfl) cap backend env
  generalize Db.fresh m size cap backend env = db at hinside hok hactive hslots hheader
  -- the first record that is read lies right below the tail
  have hfirst : db.undoHeader.tail - 32 ∈ db.recoveryReads := by
    rw [Db.recoveryReads_eq hok hactive (by rw [hheader]; exact hmagic)]
    unfold Db.replayReads
    rw [if_neg (by rw [hheader]; exact htail)]
    exact List.mem_cons_self
  obtain ⟨⟨k, hk⟩, hge, hlt⟩ := hinside _ hfirst
  rw [hheader] at hk hge hlt
  rw [hslots] at hlt
  exact ⟨k - 1, by omega, by omega⟩

/-- A slot of an image, as a handle on the image has it. -/
lemma LeftActive.slot_of_mem (h : LeftActive m size) (hsame : SameButRecords m m')
    (hpos : 0 < (Superblock.read m).maxSlots) (hmem : db.mem = m')
    (hok : (db.view h.geometry).Ok h.geometry) : db.slot 0 = Slot.read m (h.geometry.ptr 0) := by
  have hptr : h.geometry.ptr 0 + 64 ≤ logStart m := h.geometry.ptr_lt hpos
  unfold Db.slot Db.slotAt
  rw [Db.slotPtr_eq hok.cap, hmem]
  apply Slot.read_congr
  generalize h.geometry.ptr 0 = p at hptr ⊢
  intro x hx hx'
  exact hsame x (.inl (by omega))

/-- A header that is not sound is not safe for some records. -/
lemma LeftActive.logSound (h : LeftActive m size) (hpos : 0 < (Superblock.read m).maxSlots) (cap : ℕ)
    (backend : Backend) (env : Env)
    (hsafe : ∀ m', SameButRecords m m' → RecoversSafely (Db.fresh m' size cap backend env)) :
    LogSound (UndoHeader.read m (logStart m)) := by
  by_contra hsound
  unfold LogSound at hsound
  rw [not_or, not_or] at hsound
  obtain ⟨hmagic, htail, hrest⟩ := hsound
  obtain ⟨j, hj, htailj⟩ :=
    h.tail_of_inside cap backend env (hsafe m fun _ _ => rfl).inside hmagic htail
  have hinvalid : efUndoHeaderValid (UndoHeader.read m (logStart m)) = false := by
    rw [Bool.eq_false_iff]
    intro hvalid
    refine hrest ⟨⟨j + 2, by omega⟩, ?_, hvalid⟩
    simp only [undoLogBytes, undoLogDefaultSlots] at hj ⊢
    omega
  -- a record that sets another link than slot 0 has
  obtain ⟨next, hnext, hne⟩ : ∃ next, next < u64 ∧
      next ≠ (Slot.read m (h.geometry.ptr 0)).nextOffset := by
    by_cases h0 : (Slot.read m (h.geometry.ptr 0)).nextOffset = 0
    · exact ⟨1, by decide, by rw [h0]; decide⟩
    · exact ⟨0, by decide, Ne.symm h0⟩
  have hlone : SameButRecords m (loneRecord m j next) := sameButRecords_loneRecord hj
  have hrecovered := Db.next_recovered h hpos hj hnext hmagic htailj cap backend env
  have hok := h.ok_fresh hlone cap backend env
  have hmem : (Db.fresh (loneRecord m j next) size cap backend env).mem = loneRecord m j next := rfl
  obtain ⟨hheader, -, -⟩ := h.undoHeader_fresh hlone cap backend env
  have hmax : 0 < (Db.fresh (loneRecord m j next) size cap backend env).sb.maxSlots :=
    (congrArg Superblock.maxSlots hlone.superblock).symm ▸ hpos
  have hsafe' := hsafe _ hlone
  generalize Db.fresh (loneRecord m j next) size cap backend env = db
    at hrecovered hok hmem hheader hmax hsafe'
  have hslot := (hsafe'.torn (by rw [hheader]; exact hinvalid)).slots 0 hmax
  rw [hslot, h.slot_of_mem hlone hpos hmem hok] at hrecovered
  exact hne hrecovered.symm

namespace Db

/-- **Recovery is safe for whatever the records of the log hold**, exactly if the header of the log
is sound. (Without slots there may be nothing that a record could change.) -/
theorem recoversSafely_iff (h : LeftActive m size) (cap : ℕ) (backend : Backend) (env : Env) :
    (LogSound (UndoHeader.read m (logStart m)) →
      ∀ m', SameButRecords m m' → RecoversSafely (fresh m' size cap backend env)) ∧
    (0 < (Superblock.read m).maxSlots →
      (∀ m', SameButRecords m m' → RecoversSafely (fresh m' size cap backend env)) →
        LogSound (UndoHeader.read m (logStart m))) := by
  refine ⟨?_, ?_⟩
  · intro hsound m' hsame
    exact h.recoversSafely hsame cap backend env hsound
  · intro hpos hsafe
    exact h.logSound hpos cap backend env hsafe

/-- The image of a transaction that was interrupted after it had made the one slot an overflow
slot. -/
def interruptedImage : Mem :=
  ((newMemory 1 0).efTxnBegin.2.efSetStatus 0 statusOverflow).2.efSbChecksumStore.mem

/-- The interrupted image was left active. -/
lemma leftActive_interruptedImage : LeftActive interruptedImage 131232 := by
  refine ⟨?_, ?_, ?_, ?_⟩ <;> decide +kernel

/-- The header of its log is valid, and the record is replayed: the slot is `FREE` again. -/
theorem recoversSafely_of_interrupted :
    let db := fresh interruptedImage 131232 131232 .file Env.quiet
    efUndoHeaderValid db.undoHeader = true ∧ (db.slot 0).status = statusOverflow ∧
      (db.efTxnRecoverFromStaleLock.2.slot 0).status = statusFree ∧ RecoversSafely db :=
  ⟨by decide +kernel, by decide +kernel, by decide +kernel,
    (recoversSafely_iff leftActive_interruptedImage 131232 .file Env.quiet).1
      (.inr (.inr (by decide +kernel))) interruptedImage fun _ _ => rfl⟩

/-- An image of one slot that was left in a transaction, with the given header of its log and a
record that turns slot 0 into a USED slot. -/
def tornImage (magic tail : ℕ) : Mem :=
  let db := (newMemory 1 0).setTxnState txnStateActive
  let db := (db.store 128 4 magic).store (128 + 8) 8 tail
  let db := db.writeUndoRecord (128 + 32) .slotStatus 64 0 (leBytes 4 statusUsed ++ List.replicate 8 0)
  db.efSbChecksumStore.mem

/-- Both torn images were left active. -/
lemma leftActive_tornImage : LeftActive (tornImage undoHeaderMagic 64) 131232 ∧
    LeftActive (tornImage undoHeaderMagic 40) 131232 := by
  refine ⟨⟨?_, ?_, ?_, ?_⟩, ⟨?_, ?_, ?_, ?_⟩⟩ <;> decide +kernel

/-- A header without a checksum: the record is replayed. A tail that is not aligned: a record is
read from the header. -/
theorem recovery_trusts_header :
    LeftActive (tornImage undoHeaderMagic 64) 131232 ∧
      efUndoHeaderValid (fresh (tornImage undoHeaderMagic 64) 131232 131232 .file Env.quiet).undoHeader =
        false ∧
      ((fresh (tornImage undoHeaderMagic 64) 131232 131232 .file Env.quiet).slot 0).status =
          statusFree ∧
      ((fresh (tornImage undoHeaderMagic 64) 131232 131232 .file
        Env.quiet).efTxnRecoverFromStaleLock.2.slot 0).status = statusUsed ∧
      LeftActive (tornImage undoHeaderMagic 40) 131232 ∧
      (fresh (tornImage undoHeaderMagic 40) 131232 131232 .file Env.quiet).recoveryReads = [8] := by
  refine ⟨leftActive_tornImage.1, ?_, ?_, ?_, leftActive_tornImage.2, ?_⟩ <;> decide +kernel

end Db

end Endfields.Model
