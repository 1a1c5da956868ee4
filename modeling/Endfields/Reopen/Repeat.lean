import Endfields.Reopen.Stages

/-!
# Opening a file twice

The open of a v5 file wants the exact size of its layout; that of an older file only a size that is
large enough. The migration changes the schema and not the size.

* `Db.Ready m F s db`: the handle `db` names what the image `m` names, in a file of `F`
  bytes, under the schema `s` and with no transaction left active.
* **`Db.reopen_ok_iff`**: after a writable open and a close, the file opens again exactly if it was
  not both migrated and larger than its v5 layout.
-/

namespace Endfields.Model

open Endfields.Lib

namespace Db

variable {m m' : Mem} {size n cap F s : ℕ} {env : Env} {db db' : Db}

/-! ### What the stages leave -/

/-- The handle names what the image `m` names, in a file of `F` bytes under the schema `s`. -/
structure Ready (m : Mem) (F s : ℕ) (db : Db) : Prop where
  writable : db.readonly = false
  fileSize : db.fileSize = F
  undoLogSlots : db.undoLogSlots = undoLogDefaultSlots
  low : ∀ x, x < 16 → db.mem x = m x
  schema : db.sb.schemaVersion = s
  hashCap : efHashCapacityFromSb db.mem = efHashCapacityFromSb m
  state : s = schemaVersion → db.sb.txnState ≠ txnStateActive

/-- The slots are those of the image. -/
lemma Ready.maxSlots (h : Ready m F s db) :
    db.sb.maxSlots = (Superblock.read m).maxSlots :=
  load_congr fun x hx hx' => h.low x (by omega)

/-- The v5 size is that of the image. -/
lemma Ready.v5Size (h : Ready m F s db) : v5Size db.mem = v5Size m := by
  have hmax : (Superblock.read db.mem).maxSlots = (Superblock.read m).maxSlots := h.maxSlots
  unfold Model.v5Size
  rw [h.hashCap, hmax]

/-- So is the size that an open asks for. -/
lemma Ready.need (h : Ready m F s db) : db.need = Model.v5Size m := by
  rw [← h.v5Size]
  unfold Db.need
  rw [h.undoLogSlots]
  rfl

/-- A migrated handle. -/
lemma Migrated.ready (h : Migrated db db') (hw : db.readonly = false) :
    Ready db.mem db.fileSize schemaVersion db' where
  writable := h.readonly.trans hw
  fileSize := h.fileSize
  undoLogSlots := h.undoLogSlots
  low x hx := h.low x (by omega) (by omega)
  schema := h.schema
  hashCap := (efHashCapacityFromSb_eq h.schema.ge).trans h.hashCap
  state _ := by
    have hzero : db'.sb.txnState = 0 := load_eq_zero fun x hx hx' => h.locks x (by omega) (by omega)
    rw [hzero]
    norm_num

/-- Recovery on a v5 file names what the file named, and leaves no active transaction. -/
lemma ready_of_recover (h : db.Opening) (hfit : db.Fitted) (hb : db.backend = .file)
    (hslots : db.undoLogSlots = undoLogDefaultSlots)
    (hrec : db.efTxnRecoverFromStaleLock = (.ok, db')) :
    Ready db.mem db.fileSize schemaVersion db' ∧ db'.backend = .file := by
  by_cases hactive : db.sb.txnState = txnStateActive
  · obtain ⟨err, db₂, hrefits, heq⟩ := efTxnRecoverFromStaleLock_eq h hactive
    have hdb' : db' = ({ (db₂.setTxnState txnStateNone).setTxnLock 0 with
        txnState := txnStateNone } : Db).efDbMarkMetaDirty := by
      rw [hrec] at heq
      exact congrArg Prod.snd heq
    have hfit₀ : (({ db with txnState := txnStateAborting } : Db).setError .ok).Fitted :=
      ⟨hfit.rooted, hfit.room, hfit.size, hfit.cap⟩
    have hcap : (({ db with txnState := txnStateAborting } : Db).setError .ok).hashCapacity =
        db.hashCapacity := rfl
    have hmem : (({ db with txnState := txnStateAborting } : Db).setError .ok).mem = db.mem := rfl
    have hfields : (({ db with txnState := txnStateAborting } : Db).setError .ok).fileSize =
        db.fileSize ∧ (({ db with txnState := txnStateAborting } : Db).setError .ok).backend = .file ∧
        (({ db with txnState := txnStateAborting } : Db).setError .ok).undoLogSlots =
          undoLogDefaultSlots := ⟨rfl, hb, hslots⟩
    have h₀ : (({ db with txnState := txnStateAborting } : Db).setError .ok).Opening :=
      ⟨h.schema, h.base, h.writable, h.inactive⟩
    generalize ({ db with txnState := txnStateAborting } : Db).setError .ok = db₀
      at hrefits hfit₀ hcap hmem hfields h₀
    have h₂ := h₀.keeps hrefits.toKeeps
    obtain ⟨hfile, hback, hlogs⟩ := hfields
    obtain ⟨hsize₂, hcap₂⟩ := hrefits.file hback
    have hfit₂ := hrefits.fitted hfit₀
    have hlow : ∀ x, x < 60 → db'.mem x = db₂.mem x := fun x hx => by
      rw [hdb']
      exact (store_apply_of_outside (by omega)).trans (store_apply_of_outside (by omega))
    have hschema : db'.sb.schemaVersion = schemaVersion :=
      (load_congr fun x hx hx' => hlow x (by omega)).trans h₂.schema
    have hstored : db'.sb.hashCap = db₂.sb.hashCap := load_congr fun x hx hx' => hlow x (by omega)
    have hstate : db'.sb.txnState = txnStateNone := by
      rw [hdb']
      exact sb_txnLock_release.2.trans sb_txnState_none
    refine ⟨⟨?_, ?_, ?_, fun x hx => ?_, hschema, ?_, fun _ => ?_⟩, ?_⟩
    · rw [hdb']
      exact h₂.writable
    · rw [hdb']
      exact hsize₂.trans hfile
    · rw [hdb']
      exact hrefits.undoLogSlots.trans hlogs
    · rw [hlow x (by omega), hrefits.mem h₀.rooted x (.inl hx), hmem]
    · rw [efHashCapacityFromSb_eq hschema.ge, hstored, hfit₂.cap, hcap₂, hcap, ← hfit.cap]
      exact (efHashCapacityFromSb_eq h.schema.ge).symm
    · rw [hstate]
      norm_num
    · rw [hdb']
      exact hrefits.backend.trans hback
  · rw [efTxnRecoverFromStaleLock_of_ne h hactive] at hrec
    cases hrec
    exact ⟨⟨h.writable, rfl, hslots, fun _ _ => rfl, h.schema, rfl, fun _ => hactive⟩, hb⟩

/-- The image's name for its own handle. -/
lemma ready_fresh (hlt : (Superblock.read m).schemaVersion < schemaVersion) (mapCapacity : ℕ)
    (backend : Backend) :
    Ready m F (Superblock.read m).schemaVersion (fresh m F mapCapacity backend env) :=
  ⟨rfl, rfl, rfl, fun _ _ => rfl, rfl, rfl, fun hs => absurd hs hlt.ne⟩

/-- The handle of a v5 file of the right size is ready for the recovery. -/
lemma opening_of_v5 (hroom : HasRoom m) (hs : (Superblock.read m).schemaVersion = schemaVersion) :
    (fresh m F F .file env).Opening := by
  unfold HasRoom at hroom
  refine ⟨hs, ?_, rfl, rfl⟩
  show 64 ≤ (64 + efHashCapacityFromSb m * 16 + (Superblock.read m).maxSlots * 64) % u64
  rw [Nat.mod_eq_of_lt (by omega)]
  omega

/-- **The stages before the rebuild** keep what the image names. -/
lemma ready_stages (hroom : HasRoom m)
    (hok : (fresh m F F .file env).efDbInitExisting = (.ok, db')) :
    Valid m F ∧ ∃ db, Ready m F (if Migrates m then schemaVersion
      else (Superblock.read m).schemaVersion) db ∧ db.backend = .file ∧
        db.finishOpen = (.ok, db') := by
  have hw : (fresh m F F .file env).readonly = false := rfl
  obtain ⟨hvalid, db₁, db₂, hmig, hrec, hfin⟩ := efDbInitExisting_stages hw hok
  have hvalid : Valid m F := hvalid
  rw [fresh_bound] at hmig
  refine ⟨hvalid, db₂, ?_⟩
  rw [← and_assoc]
  refine ⟨?_, hfin⟩
  by_cases hm : Migrates m
  · obtain ⟨db₁', hmig', hspec⟩ := migrate_of_migrates (fresh_bound m F F .file env ▸ hm)
      (fresh_bound m F F .file env) (efHashCapacityValid_le hvalid.cap) hroom
    obtain ⟨hopening, -, hst⟩ := hspec.opening rfl rfl hroom
    rw [hmig'] at hmig
    cases hmig
    rw [efTxnRecoverFromStaleLock_of_ne hopening (by rw [hst]; norm_num)] at hrec
    cases hrec
    rw [if_pos hm]
    exact ⟨hspec.ready rfl, hspec.backend⟩
  · rw [migrate_of_not_migrates (show ¬ Migrates (fresh m F F .file env).mem from hm)] at hmig
    cases hmig
    rw [if_neg hm]
    rcases hvalid.schema.lt_or_eq with hlt | hs
    · have hnone : (fresh m F F .file env).efTxnRecoverFromStaleLock =
          (.ok, fresh m F F .file env) := if_pos hlt
      rw [hnone] at hrec
      cases hrec
      exact ⟨ready_fresh hlt F .file, rfl⟩
    · have hopening : (fresh m F F .file env).Opening := opening_of_v5 hroom hs
      rw [hs]
      have hfits : 64 + (Superblock.read m).hashCap * 16 + (Superblock.read m).maxSlots * 64 < u64 := by
        have hr := hroom
        unfold HasRoom at hr
        rw [efHashCapacityFromSb_read hs] at hr
        omega
      have hfit : (fresh m F F .file env).Fitted :=
        (fitted_fresh hs hfits (hvalid.exact_size hs) (fun h => (by cases h))).2
      exact ready_of_recover hopening hfit rfl rfl hrec

/-- The schema that an open leaves. -/
def schemaAfter (m : Mem) : ℕ :=
  if Migrates m then schemaVersion
  else if (Superblock.read m).schemaVersion = 0 then schemaLegacy
  else (Superblock.read m).schemaVersion

/-- What an accepted open leaves: the names of the image, a checksum that is right, and a file that
is large enough. -/
structure Left (m : Mem) (F : ℕ) (db : Db) : Prop extends Ready m F (schemaAfter m) db where
  checksum : db.sb.sbCrc = true → db.sb.checksum = efSbChecksumCompute db.mem
  large : Model.v5Size m ≤ F

/-- The rebuild of an image without a schema: it becomes a v1 image. -/
lemma Ready.rebuilt_of_zero {db₁ : Db} (h : Ready m F (if Migrates m then schemaVersion
    else (Superblock.read m).schemaVersion) db) (hframe : Frame db db') (hs : db.sb.schemaVersion = 0)
    (h₁ : Rebuilds db db₁) (h₂ : Rebuilds ((db₁.setSchemaVersion schemaLegacy).setFlags 0) db') :
    Ready m F (schemaAfter m) db' := by
  have hnm : ¬ Migrates m ∧ (Superblock.read m).schemaVersion = 0 := by
    have hschema := h.schema
    rw [hs] at hschema
    split_ifs at hschema with hm
    · exact absurd hschema (by norm_num)
    · exact ⟨hm, hschema.symm⟩
  have hafter : schemaAfter m = schemaLegacy := by
    unfold schemaAfter
    rw [if_neg hnm.1, if_pos hnm.2]
  have hs' : db'.sb.schemaVersion = schemaLegacy := by
    have hsame : db'.sb.schemaVersion =
        ((db₁.setSchemaVersion schemaLegacy).setFlags 0).sb.schemaVersion :=
      load_congr fun x hx hx' => h₂.mem x (.inr (.inl ⟨hx, by omega⟩))
    exact hsame.trans ((load_store_of_disjoint (by omega)).trans (load_store_self _ 24 4 _))
  have hcap : ∀ db : Db, db.sb.schemaVersion < schemaVersionV3 → efHashCapacityFromSb db.mem = 0 :=
    fun db h => if_pos h
  refine ⟨hframe.readonly.trans h.writable, hframe.fileSize.trans h.fileSize,
    hframe.undoLogSlots.trans h.undoLogSlots, fun x hx => ?_, hs'.trans hafter.symm, ?_, fun h5 => ?_⟩
  · rw [h₂.mem x (.inl hx)]
    exact (store_apply_of_outside (by omega)).trans ((store_apply_of_outside (by omega)).trans
      ((h₁.mem x (.inl hx)).trans (h.low x hx)))
  · rw [hcap _ (by rw [hs']; norm_num), ← h.hashCap, hcap db (by rw [hs]; norm_num)]
  · rw [hafter] at h5
    exact absurd h5 (by norm_num)

/-- The rebuild of an image with a schema. -/
lemma Ready.rebuilt_of_ne_zero (h : Ready m F (if Migrates m then schemaVersion
    else (Superblock.read m).schemaVersion) db) (hframe : Frame db db') (hs : db.sb.schemaVersion ≠ 0)
    (hreb : Rebuilds db db') : Ready m F (schemaAfter m) db' := by
  have hschema : db'.sb.schemaVersion = db.sb.schemaVersion :=
    load_congr fun x hx hx' => hreb.mem x (.inr (.inl ⟨hx, by omega⟩))
  have hstate : db'.sb.txnState = db.sb.txnState :=
    load_congr fun x hx hx' => hreb.mem x (.inr (.inr ⟨by omega, by omega⟩))
  have hafter : schemaAfter m =
      if Migrates m then schemaVersion else (Superblock.read m).schemaVersion := by
    have hschema := h.schema
    unfold schemaAfter
    split_ifs at hschema ⊢ with hm h0
    · rfl
    · exact absurd (hschema.trans h0) hs
    · rfl
  refine ⟨hframe.readonly.trans h.writable, hframe.fileSize.trans h.fileSize,
    hframe.undoLogSlots.trans h.undoLogSlots, fun x hx => (hreb.mem x (.inl hx)).trans
        (h.low x hx), ?_, ?_, fun h5 => ?_⟩
  · rw [hschema, h.schema, hafter]
  · refine Eq.trans ?_ h.hashCap
    exact efHashCapacityFromSb_congr fun x hx => hreb.mem x (by unfold rebuildKeepsByte; omega)
  · rw [hstate]
    exact h.state (hafter.symm.trans h5)

/-- The rebuild leaves the handle ready.
Source: `endfields.c`, `ef_rebuild_free_list` -/
lemma Ready.rebuilt (h : Ready m F (if Migrates m then schemaVersion
    else (Superblock.read m).schemaVersion) db) : Ready m F (schemaAfter m) db.efRebuildFreeList := by
  have hframe := frame_efRebuildFreeList db
  by_cases hs : db.sb.schemaVersion = 0
  · obtain ⟨db₁, h₁, h₂⟩ := rebuilds_of_schema_zero hs
    exact h.rebuilt_of_zero hframe hs h₁ h₂
  · exact h.rebuilt_of_ne_zero hframe hs (rebuilds_efRebuildFreeList hs)

/-- **The rebuild** keeps what the image names. -/
lemma Ready.finish (h : Ready m F (if Migrates m then schemaVersion
    else (Superblock.read m).schemaVersion) db) (hb : db.backend = .file)
    (hfin : db.finishOpen = (.ok, db')) : Left m F db' := by
  obtain ⟨heq, hneed⟩ := finishOpen_file hb hfin
  have hmain := h.rebuilt
  have hsum := checksum_efRebuildFreeList db
  rw [heq]
  generalize db.efRebuildFreeList = rebuilt at hneed hmain hsum ⊢
  rw [hmain.need, hmain.fileSize] at hneed
  exact ⟨hmain, hsum, hneed⟩

/-! ### Closing and opening again -/

/-- Closing brings the checksum up to date and changes nothing else. -/
lemma efClose_cases (hw : db.readonly = false) : db.efClose = db.setError .ok ∨
    db.efClose = ({ db.efSbChecksumStore with sbMetaDirty := false } : Db).setError .ok := by
  unfold efClose efDbCommitMeta
  rw [if_neg (by simp [hw]), if_neg (by simp [hw])]
  by_cases hd : db.sbMetaDirty = true
  · rw [if_pos hd]
    exact .inr rfl
  · rw [if_neg hd]
    exact .inl rfl

/-- A stored error is not part of the image. -/
lemma Left.setError (h : Left m F db) (err : Err) : Left m F (db.setError err) :=
  ⟨⟨h.writable, h.fileSize, h.undoLogSlots, h.low, h.schema, h.hashCap, h.state⟩, h.checksum,
    h.large⟩

/-- A close leaves the image.
Source: `endfields.c`, `ef_close` -/
lemma Left.close (h : Left m F db) : Left m F db.efClose := by
  rcases efClose_cases h.writable with heq | heq
  · rw [heq]
    exact h.setError .ok
  rw [heq]
  have hmem : ∀ x, x < 36 ∨ 40 ≤ x → db.efSbChecksumStore.mem x = db.mem x := fun x hx => by
    obtain ⟨v, hv⟩ := efSbChecksumStore_eq db
    rw [hv]
    exact store_apply_of_outside (by omega)
  have hsum : db.efSbChecksumStore.sb.sbCrc = true →
      db.efSbChecksumStore.sb.checksum = efSbChecksumCompute db.efSbChecksumStore.mem := fun hc =>
    checksum_efSbChecksumStore (sbCrc_efSbChecksumStore.symm.trans hc)
  have hframe := frame_efSbChecksumStore db
  generalize db.efSbChecksumStore = db₁ at hmem hsum hframe ⊢
  have hschema : db₁.sb.schemaVersion = db.sb.schemaVersion :=
    load_congr fun x hx hx' => hmem x (by omega)
  have hstate : db₁.sb.txnState = db.sb.txnState := load_congr fun x hx hx' => hmem x (by omega)
  refine ⟨⟨hframe.readonly.trans h.writable, hframe.fileSize.trans h.fileSize,
    hframe.undoLogSlots.trans h.undoLogSlots, fun x hx => (hmem x (by omega)).trans (h.low x hx),
    hschema.trans h.schema, ?_, fun hs => ?_⟩, hsum, h.large⟩
  · refine Eq.trans ?_ h.hashCap
    exact efHashCapacityFromSb_congr fun x hx => hmem x (by omega)
  · have hne := h.state hs
    rwa [← hstate] at hne

/-- A valid image that needs no migration and no recovery is opened. -/
lemma efDbInitExisting_of_left (h : Left m F db) (hvalid : Valid db.mem F)
    (hsmall : 64 * (Superblock.read m).maxSlots < 2 ^ 63) :
    (fresh db.mem F F .file env).efDbInitExisting.1 = .ok := by
  have hnm : ¬ Migrates db.mem := by
    have hschema := h.schema
    have hcap := h.hashCap
    unfold schemaAfter at hschema
    by_cases hm : Migrates m
    · -- a migrated image is at v5
      rw [if_pos hm] at hschema
      rintro (h4 | ⟨h3, -⟩)
      · exact absurd (hschema.symm.trans h4) (by norm_num)
      · exact absurd (hschema.symm.trans h3) (by norm_num)
    rw [if_neg hm] at hschema
    by_cases h0 : (Superblock.read m).schemaVersion = 0
    · rw [if_pos h0] at hschema
      rintro (h4 | ⟨h3, -⟩)
      · exact absurd (hschema.symm.trans h4) (by norm_num)
      · exact absurd (hschema.symm.trans h3) (by norm_num)
    · rw [if_neg h0] at hschema
      rintro (h4 | ⟨h3, hpos⟩)
      · exact hm (.inl (hschema.symm.trans h4))
      · exact hm (.inr ⟨hschema.symm.trans h3, hcap ▸ hpos⟩)
  have hstate : schemaVersion ≤ (fresh db.mem F F .file env).sb.schemaVersion →
      (fresh db.mem F F .file env).sb.txnState ≠ txnStateActive := fun hge => by
    have hs : db.sb.schemaVersion = schemaVersion := le_antisymm hvalid.schema hge
    exact h.state (h.schema.symm.trans hs)
  have hready : Ready db.mem F (if Migrates db.mem then schemaVersion
      else (Superblock.read db.mem).schemaVersion) (fresh db.mem F F .file env) := by
    rw [if_neg hnm]
    exact ⟨rfl, rfl, rfl, fun _ _ => rfl, rfl, rfl, fun hs => hstate (Eq.ge hs)⟩
  have hreb := hready.rebuilt
  rw [efDbInitExisting_eq_stages rfl hvalid, fresh_bound,
    migrate_of_not_migrates (show ¬ Migrates (fresh db.mem F F .file env).mem from hnm)]
  simp only
  rw [efTxnRecoverFromStaleLock_none hstate]
  simp only
  rw [finishOpen_of_le (rebuildFaults_of_lt (h.maxSlots.symm ▸ hsmall))]
  generalize (fresh db.mem F F .file env).efRebuildFreeList = rebuilt at hreb ⊢
  rw [hreb.need, h.v5Size, hreb.fileSize]
  exact h.large

/-- What an open leaves is valid exactly if a v5 file has the size of its layout. -/
lemma Left.valid_iff (h : Left m F db) (hold : Valid m F) (hmin : efExpectedFileSize
    (Superblock.read m).maxSlots (efHashCapacityFromSb m) 0 ≤ F)
    (hcrc : efSbChecksumCompute db.mem ≠ 0) :
    Valid db.mem F ↔ (schemaAfter m = schemaVersion → F = v5Size m) := by
  have hschema : (Superblock.read db.mem).schemaVersion = schemaAfter m := h.schema
  have hmax : (Superblock.read db.mem).maxSlots = (Superblock.read m).maxSlots := h.maxSlots
  refine ⟨fun hv hs => (hv.exact_size (hschema.trans hs)).trans h.v5Size, fun hexact => ?_⟩
  refine ⟨?_, ?_, ?_, ?_, fun hs => ?_, fun _ => ?_, ?_⟩
  · have hmagic : (Superblock.read db.mem).magic = (Superblock.read m).magic :=
      load_congr fun x hx hx' => h.low x (by omega)
    have hold := hold.magic
    unfold efMagicValid at hold ⊢
    rwa [hmagic]
  · exact (load_congr fun x hx hx' => h.low x (by omega)).trans hold.slotSize
  · rw [hschema]
    have hle := hold.schema
    unfold schemaAfter
    split_ifs
    · exact le_rfl
    · norm_num
    · exact hle
  · rw [h.hashCap]
    exact hold.cap
  · exact (hexact (hschema.symm.trans hs)).trans h.v5Size.symm
  · rw [h.hashCap, hmax]
    exact hmin
  · rw [efSbChecksumValid_iff]
    intro hc
    have hsum : (Superblock.read db.mem).checksum = efSbChecksumCompute db.mem := h.checksum hc
    exact ⟨hsum ▸ hcrc, hsum⟩

/-- **A file that was opened and closed** opens again exactly if it was not both migrated and larger
than its v5 layout. -/
theorem reopen_ok_iff {n' cap' : ℕ} {env' : Env} (hstored : Stored m size)
    (hok : (efOpenExHash m size n cap env).1 = .ok)
    (hcrc : efSbChecksumCompute (efOpenExHash m size n cap env).2.efClose.mem ≠ 0)
    (hcap : efHashCapacityValid cap' = true) (hmalloc : env'.mallocFails = false) :
    (efOpenExHash (efOpenExHash m size n cap env).2.efClose.mem
      (efOpenExHash m size n cap env).2.efClose.fileSize n' cap' env').1 = .ok ↔
      ¬ (((Superblock.read m).schemaVersion = schemaVersionV4 ∨
        (Superblock.read m).schemaVersion = schemaVersionV3 ∧ 0 < efHashCapacityFromSb m) ∧
          v5Size m < size) := by
  obtain ⟨m', F, hgrown, hinit, heq⟩ := efOpenExHash_stages hstored.size_ne hok
  have hlow := hgrown.low hstored
  have hsb : Superblock.read m' = Superblock.read m := Superblock.read_congr hlow
  have hfrom : efHashCapacityFromSb m' = efHashCapacityFromSb m :=
    efHashCapacityFromSb_congr fun x hx => hlow x (by omega)
  have hv5 : Model.v5Size m' = Model.v5Size m := v5Size_congr hlow
  have hroom : HasRoom m' := by
    unfold HasRoom
    rw [hfrom, hsb]
    exact hstored.room
  have hinit' : (fresh m' F F .file env).efDbInitExisting =
      (.ok, (fresh m' F F .file env).efDbInitExisting.2) := Prod.ext hinit rfl
  rw [heq] at hcrc ⊢
  generalize (fresh m' F F .file env).efDbInitExisting.2 = db at hinit' hcrc ⊢
  obtain ⟨hvalid, db₂, hready, hb, hfin⟩ := ready_stages hroom hinit'
  have hleft : Left m' F (db.setError .ok).efClose := ((hready.finish hb hfin).setError .ok).close
  generalize (db.setError .ok).efClose = closed at hcrc hleft ⊢
  rw [hleft.fileSize]
  -- the first open made the file large enough, for every schema
  obtain ⟨hsize5, hsize0⟩ := hstored.sizes
  have hfits := hstored.fits
  have hsize := hstored.size_lt
  have hF := hgrown.size_eq
  have hFge : size ≤ F := by
    rw [hF]
    split_ifs
    · exact le_max_left _ _
    · exact le_rfl
  have hno : (Superblock.read closed.mem).schemaVersion < schemaVersion →
      Model.v5Size closed.mem ≤ F := fun _ => by
    rw [hleft.v5Size]
    exact hleft.large
  rw [efOpenExHash_of_no_growth (by omega) hcap hmalloc hno, opened_ok]
  have hvalid_iff := hleft.valid_iff hvalid (by rw [hsb, hfrom, hsize0]; omega) hcrc
  have hw : (fresh closed.mem F F .file env').readonly = false := rfl
  have hiff : (fresh closed.mem F F .file env').efDbInitExisting.1 = .ok ↔ Valid closed.mem F :=
    ⟨fun h => valid_of_efDbInitExisting hw h,
      fun hvalid => efDbInitExisting_of_left hleft hvalid (by rw [hsb]; omega)⟩
  rw [hiff, hvalid_iff, hv5]
  have hmig := migrates_congr hlow
  unfold schemaAfter
  rw [hsb]
  by_cases hm : Migrates m
  · -- a migrated image is at v5, where the size has to match
    have hlt : (Superblock.read m).schemaVersion < schemaVersion := by
      rcases hm with h4 | ⟨h3, -⟩
      · rw [h4]
        norm_num
      · rw [h3]
        norm_num
    rw [if_pos (hmig.mpr hm)]
    rw [if_pos hlt] at hF
    constructor
    · rintro hexact ⟨-, hlarge⟩
      have hsame := hexact rfl
      rw [max_eq_left hlarge.le] at hF
      omega
    · intro hnot _
      have hsmall : size ≤ Model.v5Size m := not_lt.mp fun h => hnot ⟨hm, h⟩
      rw [hF, max_eq_right hsmall]
  · rw [if_neg (fun h => hm (hmig.mp h))]
    refine ⟨fun _ h => hm h.1, fun _ hs => ?_⟩
    split_ifs at hs with h0
    · exact absurd hs (by norm_num)
    · -- a v5 image was accepted for its exact size
      rw [hvalid.exact_size (by rw [hsb]; exact hs), hv5]

/-- Both sizes of the v4 image are stored images. -/
lemma stored_imageOfSchema :
    Stored (imageOfSchema 4) 160 ∧ Stored (imageOfSchema 4) 131233 := by
  refine ⟨⟨?_, ?_⟩, ⟨?_, ?_⟩⟩ <;> decide +kernel

/-- A v4 file of just its size. -/
theorem reopen_ok_iff_of_v4 : Stored (imageOfSchema 4) 160 ∧
    (efOpenExHash (imageOfSchema 4) 160 1 0 Env.quiet).1 = .ok ∧
    ((efOpenExHash (efOpenExHash (imageOfSchema 4) 160 1 0 Env.quiet).2.efClose.mem
      (efOpenExHash (imageOfSchema 4) 160 1 0 Env.quiet).2.efClose.fileSize 1 0 Env.quiet).1 = .ok ↔
      ¬ (((Superblock.read (imageOfSchema 4)).schemaVersion = schemaVersionV4 ∨
        (Superblock.read (imageOfSchema 4)).schemaVersion = schemaVersionV3 ∧
          0 < efHashCapacityFromSb (imageOfSchema 4)) ∧ v5Size (imageOfSchema 4) < 160)) :=
  ⟨stored_imageOfSchema.1, by decide +kernel, reopen_ok_iff stored_imageOfSchema.1 (by decide +kernel)
    (by decide +kernel) (by decide +kernel) (by decide +kernel)⟩

/-- A v4 file that is one byte larger than its v5 layout: the first open accepts it and the second
does not. -/
theorem reopen_refused : Stored (imageOfSchema 4) 131233 ∧
    (efOpenExHash (imageOfSchema 4) 131233 1 0 Env.quiet).1 = .ok ∧
    efSbChecksumCompute (efOpenExHash (imageOfSchema 4) 131233 1 0 Env.quiet).2.efClose.mem ≠ 0 ∧
    (efOpenExHash (efOpenExHash (imageOfSchema 4) 131233 1 0 Env.quiet).2.efClose.mem
      (efOpenExHash (imageOfSchema 4) 131233 1 0 Env.quiet).2.efClose.fileSize 1 0
        Env.quiet).1 = .fileSize :=
  ⟨stored_imageOfSchema.2, by decide +kernel, by decide +kernel, by decide +kernel⟩

end Db

end Endfields.Model
