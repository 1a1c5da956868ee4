import Endfields.Recovery.Idle
import Endfields.Spec.Open

/-!
# The stages of an open

The open of an existing image of any schema validates it, migrates it, recovers a transaction that
was left active, and rebuilds the free list.

* **`Db.checksum_efSbChecksumStore`**: the store of the superblock checksum makes its field the
  computed value, where such checksums are kept.
* `Stored m size`: an image whose index and slots lie inside the bytes of a file.
* `Migrates m`: its schema is v4, or v3 with an index. No other image is migrated
  (`Db.migrate_of_not_migrates`), and these reach v5 (`Db.migrate_of_migrates`).
* **`Db.efDbInitExisting_stages`**: a successful open went through all the stages.
* **`Db.efOpenExHash_stages`**: the open of a file grows a file of an old schema first.
-/

namespace Endfields.Model

open Endfields.Lib

/-! ### The superblock checksum -/

/-- The checksum depends on the superblock's bytes outside its own field. -/
lemma efSbChecksumCompute_congr {m m' : Mem} (h : ∀ x, x < 64 → x < 36 ∨ 40 ≤ x → m x = m' x) :
    efSbChecksumCompute m = efSbChecksumCompute m' := by
  unfold efSbChecksumCompute
  rw [readBytes_congr fun x _ hx' => h x (by omega) (by omega),
    readBytes_congr (a := 40) fun x hx hx' => h x (by omega) (by omega)]

/-- A superblock checksum fits its 32-bit field. -/
lemma efSbChecksumCompute_lt (m : Mem) : efSbChecksumCompute m < u32 := by
  have h0 : (0xFFFFFFFF : ℕ) < 2 ^ 32 := by norm_num
  unfold efSbChecksumCompute
  exact Nat.xor_lt_two_pow (efCrc32Update_lt (efCrc32Update_lt (efCrc32Update_lt h0 _) _) _) h0

namespace Db

variable {db : Db}

/-- Where superblock checksums are kept, one is stored.
Source: `endfields.c`, `ef_sb_checksum_store` -/
lemma efSbChecksumStore_of_sbCrc (h : db.sb.sbCrc = true) :
    db.efSbChecksumStore = db.setChecksum (efSbChecksumCompute db.mem) := if_pos h

/-- Storing a checksum does not change what is computed. -/
lemma efSbChecksumCompute_setChecksum (v : ℕ) :
    efSbChecksumCompute (db.setChecksum v).mem = efSbChecksumCompute db.mem :=
  efSbChecksumCompute_congr fun _ _ hx => store_apply_of_outside (by omega)

/-- Storing a checksum does not change the flags. -/
lemma sbCrc_efSbChecksumStore : db.efSbChecksumStore.sb.sbCrc = db.sb.sbCrc := by
  have hflags : ∀ v, (db.setChecksum v).sb.flags = db.sb.flags := fun _ =>
    load_store_of_disjoint (by omega)
  unfold efSbChecksumStore Superblock.sbCrc
  split_ifs
  · rw [hflags]
  · rw [hflags]

/-- **After the store** the field holds the computed value. -/
lemma checksum_efSbChecksumStore (h : db.sb.sbCrc = true) :
    db.efSbChecksumStore.sb.checksum = efSbChecksumCompute db.efSbChecksumStore.mem := by
  rw [efSbChecksumStore_of_sbCrc h, efSbChecksumCompute_setChecksum]
  exact (load_store_self _ 36 4 _).trans (Nat.mod_eq_of_lt (efSbChecksumCompute_lt _))

/-- A superblock passes the check exactly if its field holds the computed value, and that is not
zero. -/
lemma efSbChecksumValid_iff {m : Mem} : efSbChecksumValid m = true ↔
    ((Superblock.read m).sbCrc = true → (Superblock.read m).checksum ≠ 0 ∧
      (Superblock.read m).checksum = efSbChecksumCompute m) := by
  unfold efSbChecksumValid
  by_cases hc : (Superblock.read m).sbCrc = true
  · rw [if_pos hc]
    simp [hc]
  · rw [if_neg hc]
    exact ⟨fun _ h => absurd h hc, fun _ => rfl⟩

end Db

/-! ### Images in files -/

/-- An image in a file: what the superblock names lies inside the bytes that are there, and their
number is one that a file can have. -/
structure Stored (m : Mem) (size : ℕ) : Prop where
  fits : 64 + efHashCapacityFromSb m * 16 + (Superblock.read m).maxSlots * 64 + 32 ≤ size
  size_lt : size < 9223372036854775808

/-- The images that an open migrates to schema v5. -/
def Migrates (m : Mem) : Prop :=
  (Superblock.read m).schemaVersion = schemaVersionV4 ∨
    (Superblock.read m).schemaVersion = schemaVersionV3 ∧ 0 < efHashCapacityFromSb m

instance (m : Mem) : Decidable (Migrates m) := inferInstanceAs (Decidable (_ ∨ _))

/-- The size of the schema v5 layout for what the superblock names. -/
def v5Size (m : Mem) : ℕ :=
  efExpectedFileSize (Superblock.read m).maxSlots (efHashCapacityFromSb m) undoLogDefaultSlots

/-- The size of the layout in the image's own schema. -/
def probeSize (m : Mem) : ℕ :=
  efExpectedFileSize (Superblock.read m).maxSlots (efHashCapacityFromSb m)
    (if (Superblock.read m).schemaVersion = schemaVersion then undoLogDefaultSlots else 0)

/-- What a superblock passes. -/
structure Valid (m : Mem) (size : ℕ) : Prop where
  magic : efMagicValid m = true
  slotSize : (Superblock.read m).slotSize = 64
  schema : (Superblock.read m).schemaVersion ≤ schemaVersion
  cap : efHashCapacityValid (efHashCapacityFromSb m) = true
  exact_size : (Superblock.read m).schemaVersion = schemaVersion → size = v5Size m
  min_size : (Superblock.read m).schemaVersion ≠ schemaVersion →
    efExpectedFileSize (Superblock.read m).maxSlots (efHashCapacityFromSb m) 0 ≤ size
  checksum : Db.efSbChecksumValid m = true

/-- A superblock is accepted exactly if it passes every check.
Source: `endfields.c`, `ef_validate_superblock` -/
lemma efValidateSuperblock_ok_iff {m : Mem} {size : ℕ} :
    efValidateSuperblock m size = .ok ↔ Valid m size := by
  unfold efValidateSuperblock
  simp only
  by_cases h1 : efMagicValid m = true
  swap
  · rw [if_pos (by simpa using h1)]
    exact ⟨fun h => (by cases h), fun h => absurd h.magic h1⟩
  rw [if_neg (by simpa using h1)]
  by_cases h2 : (Superblock.read m).slotSize = 64
  swap
  · rw [if_pos h2]
    exact ⟨fun h => (by cases h), fun h => absurd h.slotSize h2⟩
  rw [if_neg (not_not.mpr h2)]
  by_cases h3 : schemaVersion < (Superblock.read m).schemaVersion
  · rw [if_pos h3]
    exact ⟨fun h => (by cases h), fun h => absurd h.schema (not_le.mpr h3)⟩
  rw [if_neg h3]
  by_cases h4 : efHashCapacityValid (efHashCapacityFromSb m) = true
  swap
  · rw [if_pos (by simpa using h4)]
    exact ⟨fun h => (by cases h), fun h => absurd h.cap h4⟩
  rw [if_neg (by simpa using h4)]
  have h3 := not_lt.mp h3
  by_cases hs : (Superblock.read m).schemaVersion = schemaVersion
  · rw [if_pos hs]
    by_cases h5 : size = v5Size m
    swap
    · rw [if_pos ⟨hs, h5⟩]
      exact ⟨fun h => (by cases h), fun h => absurd (h.exact_size hs) h5⟩
    rw [if_neg (fun h => h.2 h5), if_neg (fun h => h.1 hs)]
    by_cases h6 : Db.efSbChecksumValid m = true
    · rw [if_neg (by simpa using h6)]
      exact ⟨fun _ => ⟨h1, h2, h3, h4, fun _ => h5, fun h => absurd hs h, h6⟩, fun _ => rfl⟩
    · rw [if_pos (by simpa using h6)]
      exact ⟨fun h => (by cases h), fun h => absurd h.checksum h6⟩
  · rw [if_neg hs, if_neg (fun h => hs h.1)]
    by_cases h5 : efExpectedFileSize (Superblock.read m).maxSlots (efHashCapacityFromSb m) 0 ≤ size
    swap
    · rw [if_pos ⟨hs, not_le.mp h5⟩]
      exact ⟨fun h => (by cases h), fun h => absurd (h.min_size hs) h5⟩
    rw [if_neg (fun h => absurd h5 (not_le.mpr h.2))]
    by_cases h6 : Db.efSbChecksumValid m = true
    · rw [if_neg (by simpa using h6)]
      exact ⟨fun _ => ⟨h1, h2, h3, h4, fun h => absurd h hs, fun _ => h5, h6⟩, fun _ => rfl⟩
    · rw [if_pos (by simpa using h6)]
      exact ⟨fun h => (by cases h), fun h => absurd h.checksum h6⟩

/-- A stored image is not empty. -/
lemma Stored.size_ne {m : Mem} {size : ℕ} (h : Stored m size) : size ≠ 0 := by
  have hfits := h.fits
  omega

/-- The addresses of the layout do not wrap, nor do those for the capacity with a lock byte behind
it. -/
def HasRoom (m : Mem) : Prop :=
  64 + (efHashCapacityFromSb m + 65536) * 16 + (Superblock.read m).maxSlots * 64 < u64

/-- A stored image has room for its layout. -/
lemma Stored.room {m : Mem} {size : ℕ} (h : Stored m size) : HasRoom m := by
  have hfits := h.fits
  have hlt := h.size_lt
  unfold HasRoom u64
  omega

/-- The layout of an image in a file does not wrap. -/
lemma Stored.sizes {m : Mem} {size : ℕ} (h : Stored m size) :
    v5Size m = 64 + efHashCapacityFromSb m * 16 + (Superblock.read m).maxSlots * 64 + 32 +
      undoLogDefaultSlots * 32 ∧
    efExpectedFileSize (Superblock.read m).maxSlots (efHashCapacityFromSb m) 0 =
      64 + efHashCapacityFromSb m * 16 + (Superblock.read m).maxSlots * 64 + 32 := by
  have hfits := h.fits
  have hlt := h.size_lt
  unfold v5Size efExpectedFileSize
  rw [Nat.mod_eq_of_lt (by unfold u64; simp only [undoLogDefaultSlots]; omega),
    Nat.mod_eq_of_lt (by unfold u64; omega)]
  exact ⟨rfl, rfl⟩

/-- The capacity that the superblock names depends on the schema and on four bytes. -/
lemma efHashCapacityFromSb_congr {m m' : Mem}
    (h : ∀ x, (24 ≤ x ∧ x < 28) ∨ (56 ≤ x ∧ x < 60) → m' x = m x) :
    efHashCapacityFromSb m' = efHashCapacityFromSb m := by
  have hs : (Superblock.read m').schemaVersion = (Superblock.read m).schemaVersion :=
    load_congr fun x hx hx' => h x (.inl ⟨hx, hx'⟩)
  have h2 : load m' 56 2 = load m 56 2 := load_congr fun x hx hx' => h x (.inr ⟨hx, by omega⟩)
  have h4 : load m' 56 4 = load m 56 4 := load_congr fun x hx hx' => h x (.inr ⟨hx, hx'⟩)
  unfold efHashCapacityFromSb efSbHashCapacityLoad
  rw [hs, h2, h4]

/-- Whether an image is migrated depends on its superblock. -/
lemma migrates_congr {m m' : Mem} (h : ∀ x, x < 64 → m' x = m x) : Migrates m' ↔ Migrates m := by
  unfold Migrates
  rw [efHashCapacityFromSb_congr fun x hx => h x (by omega), Superblock.read_congr h]

/-- The v5 size depends on the superblock. -/
lemma v5Size_congr {m m' : Mem} (h : ∀ x, x < 64 → m' x = m x) : v5Size m' = v5Size m := by
  unfold v5Size
  rw [efHashCapacityFromSb_congr fun x hx => h x (by omega), Superblock.read_congr h]

namespace Db

variable {db db' : Db} {m : Mem} {size : ℕ}

/-! ### The stages -/

/-- No other image is migrated. -/
lemma migrate_of_not_migrates (h : ¬ Migrates db.mem) : db.migrate = (.ok, db) := by
  have h4 : db.sb.schemaVersion ≠ schemaVersionV4 := fun h4 => h (.inl h4)
  have h3 : ¬ (db.sb.schemaVersion = schemaVersionV3 ∧ 0 < efSbHashCapacityLoad db.mem) := by
    rintro ⟨h3, hcap⟩
    refine h (.inr ⟨h3, ?_⟩)
    have h3' : ¬ (Superblock.read db.mem).schemaVersion < schemaVersionV3 := not_lt.mpr (Eq.ge h3)
    unfold efHashCapacityFromSb
    rwa [if_neg h3']
  unfold migrate
  rw [if_neg h3]
  simp only
  rw [if_neg h4]

/-- An open of a valid image migrates, recovers and finishes. -/
lemma efDbInitExisting_eq_stages (hw : db.readonly = false) (hvalid : Valid db.mem db.fileSize) :
    db.efDbInitExisting =
      match db.efDbBindSlotsLayout.migrate with
      | (.ok, db) =>
          match db.efTxnRecoverFromStaleLock with
          | (.ok, db) => db.finishOpen
          | (err, db) => (err, db)
      | (err, db) => (err, db) := by
  unfold efDbInitExisting
  rw [efValidateSuperblock_ok_iff.mpr hvalid]
  simp only
  rw [if_neg (by simp [hw])]
  generalize db.efDbBindSlotsLayout.migrate = r
  obtain ⟨err, db₁⟩ := r
  cases err with
  | ok =>
      simp only
      by_cases hs : schemaVersion ≤ db₁.sb.schemaVersion
      · rw [if_pos hs]
        rfl
      · rw [if_neg hs]
        have hnone : db₁.efTxnRecoverFromStaleLock = (.ok, db₁) := if_pos (not_le.mp hs)
        rw [hnone]
        rfl
  | _ => rfl

/-- A chain of stages succeeds if its first stage and the rest do. -/
lemma stage_ok {r : Err × Db} {f : Db → Err × Db}
    (hok : (match r with
      | (.ok, db) => f db
      | (err, db) => (err, db) : Err × Db).1 = .ok) :
    ∃ db₁, r = (.ok, db₁) ∧ (f db₁).1 = .ok := by
  obtain ⟨err, db₁⟩ := r
  cases err with
  | ok => exact ⟨db₁, rfl, hok⟩
  | _ => cases hok

/-- **A successful open** went through all the stages. -/
lemma efDbInitExisting_stages (hw : db.readonly = false) (hok : db.efDbInitExisting = (.ok, db')) :
    Valid db.mem db.fileSize ∧ ∃ db₁ db₂, db.efDbBindSlotsLayout.migrate = (.ok, db₁) ∧
      db₁.efTxnRecoverFromStaleLock = (.ok, db₂) ∧ db₂.finishOpen = (.ok, db') := by
  have hvalid : Valid db.mem db.fileSize := by
    refine efValidateSuperblock_ok_iff.mp ?_
    unfold efDbInitExisting at hok
    cases hv : efValidateSuperblock db.mem db.fileSize with
    | ok => rfl
    | _ =>
        rw [hv] at hok
        cases hok
  refine ⟨hvalid, ?_⟩
  rw [efDbInitExisting_eq_stages hw hvalid] at hok
  obtain ⟨db₁, h₁, hok₁⟩ := stage_ok (congrArg Prod.fst hok)
  obtain ⟨db₂, h₂, -⟩ := stage_ok hok₁
  rw [h₁] at hok
  simp only at hok
  rw [h₂] at hok
  exact ⟨db₁, db₂, h₁, h₂, hok⟩

/-- An image that a writable open accepts is valid.
Source: `endfields.c`, `ef_db_init_mapped` -/
lemma valid_of_efDbInitExisting (hw : db.readonly = false) (hok : db.efDbInitExisting.1 = .ok) :
    Valid db.mem db.fileSize :=
  (efDbInitExisting_stages hw (Prod.ext hok rfl : db.efDbInitExisting = (.ok, _))).1

/-- The size of the schema v5 layout for what the handle's superblock names. -/
def need (db : Db) : ℕ :=
  efExpectedFileSize db.sb.maxSlots (efHashCapacityFromSb db.mem) db.undoLogSlots

/-- The last stage comes to an end where the loops of the rebuild do. -/
lemma not_rebuildFaults (hfin : db.finishOpen = (.ok, db')) : db.rebuildFaults = false := by
  by_contra hfault
  unfold finishOpen at hfin
  rw [if_pos (by simpa using hfault)] at hfin
  cases hfin

/-- The slots of an object are within reach of the rebuild. -/
lemma rebuildFaults_of_lt (h : 64 * db.sb.maxSlots < 2 ^ 63) : db.rebuildFaults = false := by
  unfold rebuildFaults rebuildRounds objectMax
  rw [if_pos (by omega)]
  simp only [decide_eq_false_iff_not, not_or, not_and, not_le]
  exact ⟨by omega, fun _ _ => by omega⟩

/-- The last stage succeeds if the size covers the v5 layout, or is not that of a file. -/
lemma finishOpen_cases (hfault : db.rebuildFaults = false) :
    db.efRebuildFreeList.need ≤ db.efRebuildFreeList.fileSize ∧
        db.finishOpen = (.ok, db.efRebuildFreeList) ∨
      db.efRebuildFreeList.fileSize < db.efRebuildFreeList.need ∧
        db.efRebuildFreeList.backend = .file ∧ db.finishOpen.1 = .fileSize ∨
      db.efRebuildFreeList.fileSize < db.efRebuildFreeList.need ∧
        db.efRebuildFreeList.backend = .memory ∧ db.finishOpen =
          (.ok, { db.efRebuildFreeList with fileSize := db.efRebuildFreeList.need }) := by
  have heq : db.finishOpen =
      if db.efRebuildFreeList.fileSize < db.efRebuildFreeList.need then
        if db.efRebuildFreeList.backend = .file then (.fileSize, db.efRebuildFreeList)
        else (.ok, { db.efRebuildFreeList with fileSize := db.efRebuildFreeList.need })
      else (.ok, db.efRebuildFreeList) := by
    unfold finishOpen
    rw [if_neg (by simp [hfault])]
    rfl
  rw [heq]
  generalize db.efRebuildFreeList = rebuilt
  generalize rebuilt.need = size
  by_cases hsize : rebuilt.fileSize < size
  · rw [if_pos hsize]
    rcases hb : rebuilt.backend with _ | _
    · exact .inr (.inl ⟨hsize, rfl, rfl⟩)
    · exact .inr (.inr ⟨hsize, rfl, rfl⟩)
  · rw [if_neg hsize]
    exact .inl ⟨not_lt.mp hsize, rfl⟩

/-! ### Migration -/

/-- The second step of the migration, on a v4 superblock. -/
def migrateTxn (db : Db) : Db :=
  let db := db.efSbMigrateV4TxnLayout.efDbMarkMetaDirty
  let slotsEnd := (db.slotsBase + db.sb.maxSlots * 64) % u64
  if (slotsEnd + undoLogBytes db.undoLogSlots) % u64 ≤ db.fileSize then
    db.zero slotsEnd (undoLogBytes db.undoLogSlots)
  else db

/-- The first step of the migration, on a v3 superblock with an index. -/
def migrateIndex (db : Db) : Db :=
  db.efSbMigrateV3IndexLayout.2.efDbBindSlotsLayout.efDbMarkMetaDirty

/-- A v4 image gets an undo segment.
Source: `endfields.c`, `ef_db_init_mapped` -/
lemma migrate_of_v4 (h : db.sb.schemaVersion = schemaVersionV4) : db.migrate =
    (.ok, db.migrateTxn) := by
  have h3 : ¬ (db.sb.schemaVersion = schemaVersionV3 ∧ 0 < efSbHashCapacityLoad db.mem) := by
    rw [h]
    exact fun h3 => absurd h3.1 (by norm_num)
  unfold migrate
  rw [if_neg h3]
  simp only
  rw [if_pos h]
  unfold migrateTxn
  simp only
  rw [← apply_ite (Prod.mk Err.ok)]

/-- The schema is v4 after the first step. -/
lemma sb_efSbMigrateV3IndexLayout (hcap : load db.mem 56 4 ≤ 0xFFFF) :
    db.efSbMigrateV3IndexLayout = (.ok, db.efSbMigrateV3IndexLayout.2) ∧
      db.efSbMigrateV3IndexLayout.2.sb.schemaVersion = schemaVersionV4 := by
  unfold efSbMigrateV3IndexLayout
  simp only
  rw [if_neg (by omega)]
  exact ⟨rfl, load_store_self _ 24 4 _⟩

/-- A v3 image with an index gets a lock word and an undo segment.
Source: `endfields.c`, `ef_db_init_mapped` -/
lemma migrate_of_v3 (h : db.sb.schemaVersion = schemaVersionV3) (hpos : 0 < load db.mem 56 4)
    (hcap : load db.mem 56 4 ≤ 0xFFFF) : db.migrate = (.ok, db.migrateIndex.migrateTxn) := by
  have hload : efSbHashCapacityLoad db.mem = load db.mem 56 4 := by
    have h' : (Superblock.read db.mem).schemaVersion = schemaVersionV3 := h
    unfold efSbHashCapacityLoad
    rw [h', if_neg (by norm_num), if_pos le_rfl]
  obtain ⟨hok, hs⟩ := sb_efSbMigrateV3IndexLayout hcap
  have hsb : ∀ db : Db, db.efDbBindSlotsLayout.efDbMarkMetaDirty.sb = db.sb := fun _ => rfl
  unfold migrate migrateIndex
  rw [if_pos ⟨h, hload ▸ hpos⟩, hok]
  simp only
  generalize db.efSbMigrateV3IndexLayout.2 = db₁ at hs ⊢
  rw [← hsb db₁] at hs
  rw [if_pos hs]
  unfold migrateTxn
  simp only
  rw [← apply_ite (Prod.mk Err.ok)]

/-- What the second step does to the bytes. -/
structure TxnMigrated (db db' : Db) : Prop where
  eq : ∃ m d, db' = { db with mem := m, sbMetaDirty := d }
  schema : db'.sb.schemaVersion = schemaVersion
  low : ∀ x, x < 60 → x < 24 ∨ 28 ≤ x → db'.mem x = db.mem x
  locks : ∀ x, 60 ≤ x → x < 64 → db'.mem x = 0
  high : ∀ x, 64 ≤ x → x < db.slotsBase + db.sb.maxSlots * 64 → db'.mem x = db.mem x

/-- Bytes behind the slots do not matter. -/
lemma TxnMigrated.zero (h : TxnMigrated db db') {a : ℕ} (n : ℕ)
    (ha : db.slotsBase + db.sb.maxSlots * 64 ≤ a) : TxnMigrated db (db'.zero a n) := by
  have hge := db.slotsBase_ge
  obtain ⟨m, d, rfl⟩ := h.eq
  have hm : ∀ x, x < a → memset m a 0 n x = m x := fun x hx => memset_apply_of_outside (.inl hx)
  refine ⟨⟨memset m a 0 n, d, rfl⟩, ?_, fun x hx hx' => ?_, fun x hx hx' => ?_, fun x hx hx' => ?_⟩
  · refine Eq.trans ?_ h.schema
    exact load_congr fun x hx hx' => hm x (by omega)
  · exact (hm x (by omega)).trans (h.low x hx hx')
  · exact (hm x (by omega)).trans (h.locks x hx hx')
  · exact (hm x (by omega)).trans (h.high x hx hx')

/-- The migration of the superblock to schema v5.
Source: `ef_sb_layout.c`, `ef_sb_migrate_v4_txn_layout` -/
lemma efSbMigrateV4TxnLayout_spec (db : Db) :
    TxnMigrated db db.efSbMigrateV4TxnLayout.efDbMarkMetaDirty := by
  refine ⟨⟨Lib.store (memset db.mem 60 0 4) 24 4 schemaVersion, _, rfl⟩, load_store_self _ 24 4 _,
    fun x hx hx' => ?_, fun x hx hx' => ?_, fun x hx _ => ?_⟩
  · exact (store_apply_of_outside (by omega)).trans (memset_apply_of_outside (by omega))
  · exact (store_apply_of_outside (by omega)).trans (memset_apply_of_inside (by omega) (by omega))
  · exact (store_apply_of_outside (by omega)).trans (memset_apply_of_outside (by omega))

/-- **The migration to schema v5** adds an empty undo segment behind the slots.
Source: `endfields.c`, `ef_db_init_mapped` -/
lemma migrateTxn_spec (hroom : db.slotsBase + db.sb.maxSlots * 64 < u64) :
    TxnMigrated db db.migrateTxn := by
  have hlayout := efSbMigrateV4TxnLayout_spec db
  have hmax : db.efSbMigrateV4TxnLayout.efDbMarkMetaDirty.sb.maxSlots = db.sb.maxSlots :=
    load_congr fun x hx hx' => hlayout.low x (by omega) (by omega)
  have hbase : db.efSbMigrateV4TxnLayout.efDbMarkMetaDirty.slotsBase = db.slotsBase := rfl
  unfold migrateTxn
  simp only
  rw [hmax, hbase, Nat.mod_eq_of_lt hroom]
  generalize db.efSbMigrateV4TxnLayout.efDbMarkMetaDirty = db₁ at hlayout
  generalize undoLogBytes db₁.undoLogSlots = bytes
  by_cases hfits : (db.slotsBase + db.sb.maxSlots * 64 + bytes) % u64 ≤ db₁.fileSize
  · rw [if_pos hfits]
    exact hlayout.zero bytes le_rfl
  · rw [if_neg hfits]
    exact hlayout

/-- What the first step does to the bytes: the lock of schema v3 becomes a byte behind the
capacity. -/
structure IndexMigrated (db db' : Db) : Prop where
  eq : ∃ m d, db' = { (db.withMem m).efDbBindSlotsLayout with sbMetaDirty := d }
  schema : db'.sb.schemaVersion = schemaVersionV4
  low : ∀ x, x < 56 → x < 24 ∨ 28 ≤ x → db'.mem x = db.mem x
  cap : load db'.mem 56 2 = load db.mem 56 4
  lock : load db'.mem 58 1 = if load db.mem 60 4 ≠ 0 then 1 else 0
  indexLock : load db'.mem 59 1 = 0
  high : ∀ x, 64 ≤ x → db'.mem x = db.mem x

/-- **The migration to schema v4** packs the capacity with clear locks.
Source: `endfields.c`, `ef_db_init_mapped` -/
lemma migrateIndex_spec (hcap : load db.mem 56 4 ≤ 0xFFFF) : IndexMigrated db db.migrateIndex := by
  unfold migrateIndex efSbMigrateV3IndexLayout efSbHashCapacityStore
  simp only
  rw [if_neg (by omega), if_neg (by omega)]
  generalize hlock : (if load db.mem 60 4 ≠ 0 then 1 else 0 : ℕ) = lock
  have hlt : lock < 256 := by
    rw [← hlock]
    split_ifs <;> norm_num
  obtain ⟨m, hm⟩ : ∃ m, ((((db.zero 56 8).setHashCap (load db.mem 56 4)).setQueueLock
      lock).setIndexWriteLock 0).setSchemaVersion schemaVersionV4 = db.withMem m := ⟨_, rfl⟩
  refine ⟨⟨m, _, by rw [hm]; rfl⟩, load_store_self _ 24 4 _, fun x hx hx' => ?_, ?_, ?_, ?_,
    fun x hx => ?_⟩
  · exact (store_apply_of_outside (by omega)).trans ((store_apply_of_outside (by omega)).trans
      ((store_apply_of_outside (by omega)).trans ((store_apply_of_outside (by omega)).trans
        (memset_apply_of_outside (by omega)))))
  · refine (load_store_of_disjoint (by omega)).trans ((load_store_of_disjoint (by omega)).trans
      ((load_store_of_disjoint (by omega)).trans ((load_store_self _ 56 2 _).trans ?_)))
    exact Nat.mod_eq_of_lt (by omega)
  · rw [hlock]
    refine (load_store_of_disjoint (by omega)).trans ((load_store_of_disjoint (by omega)).trans
      ((load_store_self _ 58 1 _).trans ?_))
    exact Nat.mod_eq_of_lt (by omega)
  · exact (load_store_of_disjoint (by omega)).trans (load_store_self _ 59 1 _)
  · exact (store_apply_of_outside (by omega)).trans ((store_apply_of_outside (by omega)).trans
      ((store_apply_of_outside (by omega)).trans ((store_apply_of_outside (by omega)).trans
        (memset_apply_of_outside (by omega)))))

/-- What the migration leaves: a v5 superblock with the capacity, and the index and the slots as
they were. The handle is bound to the word that the capacity and the lock byte form. -/
structure Migrated (db db' : Db) : Prop where
  fileSize : db'.fileSize = db.fileSize
  mapCapacity : db'.mapCapacity = db.mapCapacity
  backend : db'.backend = db.backend
  readonly : db'.readonly = db.readonly
  txnState : db'.txnState = db.txnState
  txnActive : db'.txnActive = db.txnActive
  env : db'.env = db.env
  undoLogSlots : db'.undoLogSlots = undoLogDefaultSlots
  schema : db'.sb.schemaVersion = schemaVersion
  low : ∀ x, x < 56 → x < 24 ∨ 28 ≤ x → db'.mem x = db.mem x
  hashCap : db'.sb.hashCap = efHashCapacityFromSb db.mem
  queueLock : db'.sb.queueLock =
    if db.sb.schemaVersion = schemaVersionV3 ∧ load db.mem 60 4 ≠ 0 then 1 else 0
  indexLock : db'.sb.indexWriteLock = 0
  locks : ∀ x, 60 ≤ x → x < 64 → db'.mem x = 0
  hashCapacity : db'.hashCapacity = db'.sb.hashCap + 65536 * db'.sb.queueLock
  undoLogBase : db'.undoLogBase = (db'.slotsBase + db.sb.maxSlots * 64) % u64
  high : ∀ x, 64 ≤ x → x < 64 + efHashCapacityFromSb db.mem * 16 + db.sb.maxSlots * 64 →
    db'.mem x = db.mem x

/-- The word of schemas v3 and v4 holds the fields of schema v5. -/
lemma load_capacity_word (m : Mem) :
    load m 56 4 = load m 56 2 + 65536 * load m 58 1 + 16777216 * load m 59 1 := by
  simp only [load, Nat.reduceAdd]
  omega

/-- Up to schema v4 the capacity is read from the whole word.
Source: `endfields.c`, `ef_hash_capacity_from_sb` -/
lemma efHashCapacityFromSb_word (h : db.sb.schemaVersion = schemaVersionV3 ∨
    db.sb.schemaVersion = schemaVersionV4) : efHashCapacityFromSb db.mem = load db.mem 56 4 := by
  have h3 : schemaVersionV3 ≤ (Superblock.read db.mem).schemaVersion :=
    h.elim (fun h => Eq.ge h) fun h => by
      rw [show (Superblock.read db.mem).schemaVersion = schemaVersionV4 from h]
      norm_num
  have h5 : ¬ schemaVersion ≤ (Superblock.read db.mem).schemaVersion :=
    h.elim
      (fun h => by
        rw [show (Superblock.read db.mem).schemaVersion = schemaVersionV3 from h]
        norm_num)
      fun h => by
        rw [show (Superblock.read db.mem).schemaVersion = schemaVersionV4 from h]
        norm_num
  unfold efHashCapacityFromSb efSbHashCapacityLoad
  rw [if_neg (not_lt.mpr h3), if_neg h5, if_pos h3]

/-- **The migration** of a bound handle reaches schema v5. -/
lemma migrate_of_migrates (h : Migrates db.mem) (hbind : db.efDbBindSlotsLayout = db)
    (hvalid : efHashCapacityFromSb db.mem ≤ 0xFFFF)
    (hroom : HasRoom db.mem) :
    ∃ db', db.migrate = (.ok, db') ∧ Migrated db db' := by
  have hroom : 64 + (efHashCapacityFromSb db.mem + 65536) * 16 + db.sb.maxSlots * 64 < u64 := hroom
  have hhash : db.hashCapacity = efHashCapacityFromSb db.mem := by rw [← hbind]; rfl
  have hundo : db.undoLogBase = (db.slotsBase + db.sb.maxSlots * 64) % u64 := by rw [← hbind]; rfl
  have hslots : db.undoLogSlots = undoLogDefaultSlots := by rw [← hbind]; rfl
  have hbase := db.slotsBase_eq
  rw [hhash] at hbase
  rcases h with h4 | ⟨h3, hpos⟩
  · -- a v4 image holds a capacity of two bytes already
    have hs : db.sb.schemaVersion = schemaVersionV4 := h4
    have hword := efHashCapacityFromSb_word (.inr hs)
    have hsplit := load_capacity_word db.mem
    have hspec : TxnMigrated db db.migrateTxn := migrateTxn_spec (by omega)
    refine ⟨_, migrate_of_v4 h4, ?_⟩
    generalize db.migrateTxn = db' at hspec ⊢
    have hcap : db'.sb.hashCap = load db.mem 56 2 :=
      load_congr fun x hx hx' => hspec.low x (by omega) (by omega)
    have hlock : db'.sb.queueLock = load db.mem 58 1 :=
      load_congr fun x hx hx' => hspec.low x (by omega) (by omega)
    have hindex : db'.sb.indexWriteLock = load db.mem 59 1 :=
      load_congr fun x hx hx' => hspec.low x (by omega) (by omega)
    obtain ⟨m, d, rfl⟩ := hspec.eq
    refine ⟨rfl, rfl, rfl, rfl, rfl, rfl, rfl, hslots, hspec.schema,
      fun x hx hx' => hspec.low x (by omega) hx', by omega, ?_, by omega, hspec.locks, ?_, hundo,
      fun x hx hx' => hspec.high x hx (by omega)⟩
    · rw [if_neg (fun h => absurd (hs.symm.trans h.1) (by norm_num))]
      omega
    · exact hhash.trans (by omega)
  · have hs : db.sb.schemaVersion = schemaVersionV3 := h3
    have hword := efHashCapacityFromSb_word (.inl hs)
    rw [hword] at hpos hvalid hroom hbase
    have hindex := migrateIndex_spec hvalid
    refine ⟨_, migrate_of_v3 h3 hpos hvalid, ?_⟩
    generalize db.migrateIndex = db₁ at hindex ⊢
    have hmax : db₁.sb.maxSlots = db.sb.maxSlots :=
      load_congr fun x hx hx' => hindex.low x (by omega) (by omega)
    have hlockle : load db₁.mem 58 1 ≤ 1 := by
      rw [hindex.lock]
      split_ifs <;> norm_num
    have hload := hindex.cap
    have hword₁ := efHashCapacityFromSb_word (.inr hindex.schema)
    have hsplit := load_capacity_word db₁.mem
    have hzero := hindex.indexLock
    have hhash₁ : db₁.hashCapacity = efHashCapacityFromSb db₁.mem := by
      obtain ⟨m, d, rfl⟩ := hindex.eq
      rfl
    have hundo₁ : db₁.undoLogBase = (db₁.slotsBase + db₁.sb.maxSlots * 64) % u64 := by
      obtain ⟨m, d, rfl⟩ := hindex.eq
      rfl
    have hbase₁ := db₁.slotsBase_eq
    have hspec : TxnMigrated db₁ db₁.migrateTxn := migrateTxn_spec (by omega)
    generalize db₁.migrateTxn = db' at hspec ⊢
    have hcap : db'.sb.hashCap = load db₁.mem 56 2 :=
      load_congr fun x hx hx' => hspec.low x (by omega) (by omega)
    have hlock : db'.sb.queueLock = load db₁.mem 58 1 :=
      load_congr fun x hx hx' => hspec.low x (by omega) (by omega)
    have hilock : db'.sb.indexWriteLock = load db₁.mem 59 1 :=
      load_congr fun x hx hx' => hspec.low x (by omega) (by omega)
    have hfields : db₁.fileSize = db.fileSize ∧ db₁.mapCapacity = db.mapCapacity ∧
        db₁.backend = db.backend ∧ db₁.readonly = db.readonly ∧ db₁.txnState = db.txnState ∧
          db₁.txnActive = db.txnActive ∧ db₁.env = db.env ∧
            db₁.undoLogSlots = undoLogDefaultSlots := by
      obtain ⟨m, d, rfl⟩ := hindex.eq
      exact ⟨rfl, rfl, rfl, rfl, rfl, rfl, rfl, rfl⟩
    obtain ⟨hf1, hf2, hf3, hf4, hf5, hf6, hf7, hf8⟩ := hfields
    obtain ⟨m, d, rfl⟩ := hspec.eq
    refine ⟨hf1, hf2, hf3, hf4, hf5, hf6, hf7, hf8, hspec.schema, fun x hx hx' => ?_, by omega, ?_,
      by omega, hspec.locks, ?_, ?_, fun x hx hx' => ?_⟩
    · exact (hspec.low x (by omega) hx').trans (hindex.low x hx hx')
    · rw [hlock, hindex.lock]
      simp only [hs, true_and]
    · exact hhash₁.trans (by omega)
    · rw [← hmax]
      exact hundo₁
    · exact (hspec.high x hx (by omega)).trans (hindex.high x hx)

/-! ### The open of a file -/

/-- What a successful open answers with. -/
def opened (r : Err × Db) : Err × Db :=
  match r with
  | (.ok, db) => (.ok, db.setError .ok)
  | (err, db) => (err, db)

/-- The open succeeds exactly if the handle is set up. -/
lemma opened_ok {r : Err × Db} : (opened r).1 = .ok ↔ r.1 = .ok := by
  obtain ⟨err, db⟩ := r
  cases err with
  | ok => exact Iff.rfl
  | _ => exact Iff.rfl

/-- A handle that is set up is handed out. -/
lemma opened_of_ok {r : Err × Db} (h : r.1 = .ok) : opened r = (.ok, r.2.setError .ok) := by
  obtain ⟨err, db⟩ := r
  obtain rfl : err = .ok := h
  rfl

/-- A file of an old schema is grown to the size of the v5 layout first. -/
structure Grown (m : Mem) (size : ℕ) (m' : Mem) (size' : ℕ) : Prop where
  same : ∀ x, x < size → m' x = m x
  size_eq : size' =
    if (Superblock.read m).schemaVersion < schemaVersion then max size (v5Size m) else size

/-- A file that is there, and that does not have to grow. -/
lemma efOpenExHash_of_no_growth {n cap : ℕ} {env : Env} (hsize : size ≠ 0)
    (hcap : efHashCapacityValid cap = true) (hmalloc : env.mallocFails = false)
    (hfits : (Superblock.read m).schemaVersion < schemaVersion → v5Size m ≤ size) :
    efOpenExHash m size n cap env = opened (fresh m size size .file env).efDbInitExisting := by
  unfold efOpenExHash
  rw [if_neg (by simp [hcap]), if_neg (by simp [hmalloc])]
  simp only [hsize, decide_false, Bool.false_eq_true, if_false, true_and]
  by_cases hs : (fresh m size size .file env).sb.schemaVersion < schemaVersion
  · have hle : ¬ (fresh m size size .file env).fileSize <
        efExpectedFileSize (fresh m size size .file env).sb.maxSlots
          (efHashCapacityFromSb (fresh m size size .file env).mem) undoLogDefaultSlots :=
      not_lt.mpr (hfits hs)
    rw [if_pos hs, if_neg hle]
    rfl
  · rw [if_neg hs]
    rfl

/-- **The open of a file** that is there: it is grown, and then opened. -/
lemma efOpenExHash_stages {n cap : ℕ} {env : Env} (hsize : size ≠ 0)
    (hok : (efOpenExHash m size n cap env).1 = .ok) :
    ∃ m' size', Grown m size m' size' ∧
      (fresh m' size' size' .file env).efDbInitExisting.1 = .ok ∧
      (efOpenExHash m size n cap env).2 =
        (fresh m' size' size' .file env).efDbInitExisting.2.setError .ok := by
  have hcap := efOpenExHash_valid hok
  have hmalloc : env.mallocFails = false := by
    by_contra hm
    unfold efOpenExHash at hok
    rw [if_neg (by simp [hcap]), if_pos (by simpa using hm)] at hok
    cases hok
  by_cases hgrow : (Superblock.read m).schemaVersion < schemaVersion ∧ size < v5Size m
  · -- the file is grown, and the new bytes read as zero
    obtain ⟨hs, hlt⟩ := hgrow
    have hs' : (fresh m size size .file env).sb.schemaVersion < schemaVersion := hs
    have hlt' : (fresh m size size .file env).fileSize <
        efExpectedFileSize (fresh m size size .file env).sb.maxSlots
          (efHashCapacityFromSb (fresh m size size .file env).mem) undoLogDefaultSlots := hlt
    have hrebind : ({ (fresh m size size .file env).zero size (v5Size m - size) with
        fileSize := v5Size m
        mapCapacity := v5Size m } : Db).efDbBindSlotsLayout =
          fresh (memset m size 0 (v5Size m - size)) (v5Size m) (v5Size m) .file env := rfl
    have hneed : efExpectedFileSize (fresh m size size .file env).sb.maxSlots
        (efHashCapacityFromSb (fresh m size size .file env).mem) undoLogDefaultSlots = v5Size m := rfl
    have hmore : ¬ v5Size m ≤ (fresh m size size .file env).fileSize := not_le.mpr hlt
    unfold efOpenExHash at hok ⊢
    rw [if_neg (by simp [hcap]), if_neg (by simp [hmalloc])] at hok ⊢
    simp only [hsize, decide_false, Bool.false_eq_true, if_false, true_and] at hok ⊢
    rw [if_pos hs', if_pos hlt', hneed] at hok ⊢
    unfold efPortGrowFile at hok ⊢
    rw [if_neg hmore] at hok ⊢
    rcases hg : env.growFileErr with _ | ⟨err, herr⟩
    · have hg' : (fresh m size size .file env).env.growFileErr = none := hg
      have hsz : (fresh m size size .file env).fileSize = size := rfl
      simp only [hg', hsz, hrebind] at hok ⊢
      change (opened (fresh (memset m size 0 (v5Size m - size)) (v5Size m) (v5Size m) .file
        env).efDbInitExisting).1 = .ok at hok
      have hinit := opened_ok.mp hok
      refine ⟨_, _, ⟨fun x hx => memset_apply_of_outside (.inl hx), ?_⟩, hinit, ?_⟩
      · rw [if_pos hs, max_eq_right hlt.le]
      · change (opened (fresh (memset m size 0 (v5Size m - size)) (v5Size m) (v5Size m) .file
          env).efDbInitExisting).2 = _
        rw [opened_of_ok hinit]
    · have hg' : (fresh m size size .file env).env.growFileErr = some ⟨err, herr⟩ := hg
      simp only [hg'] at hok
      cases err with
      | ok => exact absurd rfl herr
      | _ => cases hok
  · have hno : (Superblock.read m).schemaVersion < schemaVersion → v5Size m ≤ size :=
      fun hs => not_lt.mp fun hlt => hgrow ⟨hs, hlt⟩
    rw [efOpenExHash_of_no_growth hsize hcap hmalloc hno] at hok ⊢
    have hinit := opened_ok.mp hok
    refine ⟨m, size, ⟨fun _ _ => rfl, ?_⟩, hinit, by rw [opened_of_ok hinit]⟩
    split_ifs with hs
    · exact (max_eq_left (hno hs)).symm
    · rfl

/-! ### The rebuilt free list -/

/-- The superblock bytes that the rebuild leaves alone: all but the free list, the free count and
the checksum, and on an image without a schema also the schema and the flags. -/
def rebuildKeepsByte (x : ℕ) : Prop := x < 16 ∨ (24 ≤ x ∧ x < 32) ∨ (40 ≤ x ∧ x < 64)

/-- The rebuild leaves the rest of the superblock alone, in every schema. -/
structure Rebuilds (db db' : Db) : Prop where
  mem : ∀ x, rebuildKeepsByte x → db'.mem x = db.mem x

/-- Nothing happened. -/
lemma Rebuilds.refl (db : Db) : Rebuilds db db := ⟨fun _ _ => rfl⟩

/-- One part of the rebuild after the other. -/
lemma Rebuilds.trans {db'' : Db} (h : Rebuilds db db') (h' : Rebuilds db' db'') : Rebuilds db db'' :=
  ⟨fun x hx => (h'.mem x hx).trans (h.mem x hx)⟩

/-- A store that misses these bytes. -/
lemma Rebuilds.store (h : Rebuilds db db') {a w v : ℕ}
    (ha : ∀ x, a ≤ x → x < a + w → ¬ rebuildKeepsByte x) : Rebuilds db (db'.store a w v) := by
  refine h.trans ⟨fun x hx => store_apply_of_outside ?_⟩
  by_contra hin
  exact ha x (by omega) (by omega) hx

/-- A store behind the superblock. -/
lemma Rebuilds.store_high (h : Rebuilds db db') {a w v : ℕ} (ha : 64 ≤ a) :
    Rebuilds db (db'.store a w v) :=
  h.store fun x hx _ => by unfold rebuildKeepsByte; omega

/-- The head of the free list is stored. -/
lemma Rebuilds.setFreeListHead (h : Rebuilds db db') (v : ℕ) : Rebuilds db (db'.setFreeListHead v) :=
  h.store fun x hx hx' => by unfold rebuildKeepsByte; omega

/-- The checksum of the superblock is stored.
Source: `endfields.c`, `ef_sb_checksum_store` -/
lemma Rebuilds.efSbChecksumStore (h : Rebuilds db db') : Rebuilds db db'.efSbChecksumStore := by
  obtain ⟨v, hv⟩ := efSbChecksumStore_eq db'
  rw [hv]
  exact h.store fun x hx hx' => by unfold rebuildKeepsByte; omega

/-- The slots get new checksums.
Source: `endfields.c`, `ef_db_refresh_slot_crcs` -/
lemma Rebuilds.refreshSlotCrcsLoop (h : Rebuilds db db') (n : ℕ) :
    Rebuilds db (db'.refreshSlotCrcsLoop n) := by
  induction n with
  | zero => exact h
  | succ n ih =>
      unfold Db.refreshSlotCrcsLoop refreshSlotCrc efSlotHeaderCrcStore
      generalize db'.refreshSlotCrcsLoop n = db₁ at ih ⊢
      have hp := db₁.slotsBase_ge.trans (slotPtr_ge db₁ n)
      split_ifs
      · exact ih.store_high (by omega)
      · exact ih
      · exact ih

/-- All checksums are brought up to date.
Source: `endfields.c`, `ef_db_refresh_checksums` -/
lemma Rebuilds.efDbRefreshChecksums (h : Rebuilds db db') : Rebuilds db db'.efDbRefreshChecksums := by
  unfold Db.efDbRefreshChecksums efDbRefreshSlotCrcs
  split_ifs
  · exact (h.refreshSlotCrcsLoop _).efSbChecksumStore
  · exact h.efSbChecksumStore

/-- The free list is built anew, slot by slot.
Source: `endfields.c`, `ef_rebuild_free_list` -/
lemma Rebuilds.rebuildFreeListLoop (h : Rebuilds db db') (count n : ℕ) :
    Rebuilds db (db'.rebuildFreeListLoop count n).1 := by
  induction n generalizing db' count with
  | zero => exact h
  | succ n ih =>
      have hp := db'.slotsBase_ge.trans (slotPtr_ge db' n)
      have hslot : Rebuilds db (db'.rebuildFreeSlot n count).1 := by
        unfold rebuildFreeSlot
        split_ifs
        · exact Rebuilds.setFreeListHead (h.store_high (by omega)) _
        · exact h
      unfold Db.rebuildFreeListLoop
      generalize db'.rebuildFreeSlot n count = r at hslot ⊢
      obtain ⟨db₁, count₁⟩ := r
      exact ih hslot count₁

/-- What the superblock gets before the checksums are refreshed. -/
lemma efRebuildFreeList_eq (db : Db) : ∃ db₁ count, Rebuilds db db₁ ∧
    db.efRebuildFreeList = (db₁.efUpgradeSuperblock count).efDbRefreshChecksums := by
  have hloop := ((Rebuilds.refl db).setFreeListHead 0).rebuildFreeListLoop 0
    db.rebuildRounds
  exact ⟨_, _, hloop, rfl⟩

/-- The rebuilt image carries the checksum that is computed over it. -/
lemma checksum_efRebuildFreeList (db : Db) (h : db.efRebuildFreeList.sb.sbCrc = true) :
    db.efRebuildFreeList.sb.checksum = efSbChecksumCompute db.efRebuildFreeList.mem := by
  obtain ⟨db₁, count, -, heq⟩ := efRebuildFreeList_eq db
  rw [heq] at h ⊢
  unfold Db.efDbRefreshChecksums at h ⊢
  rw [sbCrc_efSbChecksumStore] at h
  exact checksum_efSbChecksumStore h

/-- The rebuild of an image with a schema. -/
lemma rebuilds_efRebuildFreeList (hs : db.sb.schemaVersion ≠ 0) :
    Rebuilds db db.efRebuildFreeList := by
  obtain ⟨db₁, count, h, heq⟩ := efRebuildFreeList_eq db
  have hs₁ : db₁.sb.schemaVersion ≠ 0 := by
    have hsame : db₁.sb.schemaVersion = db.sb.schemaVersion :=
      load_congr fun x hx hx' => h.mem x (.inr (.inl ⟨hx, by omega⟩))
    rwa [hsame]
  rw [heq]
  refine Rebuilds.efDbRefreshChecksums ?_
  unfold efUpgradeSuperblock
  rw [if_neg hs₁]
  exact Rebuilds.efSbChecksumStore (h.store fun x hx hx' => by unfold rebuildKeepsByte; omega)

/-- The rebuild of an image without a schema: it becomes a v1 image without checksums. -/
lemma rebuilds_of_schema_zero (hs : db.sb.schemaVersion = 0) :
    ∃ db₁, Rebuilds db db₁ ∧
      Rebuilds ((db₁.setSchemaVersion schemaLegacy).setFlags 0) db.efRebuildFreeList := by
  obtain ⟨db₁, count, h, heq⟩ := efRebuildFreeList_eq db
  have hs₁ : db₁.sb.schemaVersion = 0 := by
    have hsame : db₁.sb.schemaVersion = db.sb.schemaVersion :=
      load_congr fun x hx hx' => h.mem x (.inr (.inl ⟨hx, by omega⟩))
    rwa [hsame]
  refine ⟨db₁, h, ?_⟩
  rw [heq]
  refine Rebuilds.efDbRefreshChecksums ?_
  unfold efUpgradeSuperblock
  rw [if_pos hs₁]
  exact Rebuilds.efSbChecksumStore ((Rebuilds.refl _).store fun x hx hx' => by
    unfold rebuildKeepsByte
    omega)

/-- A file is finished if it is large enough, by the rebuild. -/
lemma finishOpen_file (hfile : db.backend = .file) (hfin : db.finishOpen = (.ok, db')) :
    db' = db.efRebuildFreeList ∧ db.efRebuildFreeList.need ≤ db.efRebuildFreeList.fileSize := by
  have hb : db.efRebuildFreeList.backend = .file := (frame_efRebuildFreeList db).backend.trans hfile
  rcases finishOpen_cases (not_rebuildFaults hfin) with ⟨hle, heq⟩ | ⟨-, -, herr⟩ | ⟨-, hmem, -⟩
  · exact ⟨congrArg Prod.snd (hfin.symm.trans heq), hle⟩
  · rw [hfin] at herr
    cases herr
  · rw [hb] at hmem
    cases hmem

/-- The open ends with a handle when the file holds the v5 layout.
Source: `endfields.c`, `ef_db_init_mapped` -/
lemma finishOpen_of_le (hfault : db.rebuildFaults = false)
    (h : db.efRebuildFreeList.need ≤ db.efRebuildFreeList.fileSize) :
    db.finishOpen = (.ok, db.efRebuildFreeList) := by
  rcases finishOpen_cases hfault with ⟨-, heq⟩ | ⟨hlt, -⟩ | ⟨hlt, -⟩
  · exact heq
  · omega
  · omega

/-- Recovery does nothing in every state but `ACTIVE` of schema v5. -/
lemma efTxnRecoverFromStaleLock_none (h : schemaVersion ≤ db.sb.schemaVersion →
    db.sb.txnState ≠ txnStateActive) : db.efTxnRecoverFromStaleLock = (.ok, db) := by
  unfold efTxnRecoverFromStaleLock efSbTxnStateLoad
  by_cases hs : db.sb.schemaVersion < schemaVersion
  · rw [if_pos hs]
  · rw [if_neg hs, if_neg hs, if_pos (h (not_lt.mp hs))]

/-! ### Fresh handles -/

/-- A fresh handle is bound. -/
lemma fresh_bound (m : Mem) (fileSize mapCapacity : ℕ) (backend : Backend) (env : Env) :
    (fresh m fileSize mapCapacity backend env).efDbBindSlotsLayout =
      fresh m fileSize mapCapacity backend env := rfl

/-- A migrated handle is ready for the recovery, which has nothing to do. -/
lemma Migrated.opening (h : Migrated db db') (hw : db.readonly = false)
    (hact : db.txnActive = false)
    (hroom : HasRoom db.mem) :
    db'.Opening ∧ db'.sb.txnLock = 0 ∧ db'.sb.txnState = txnStateNone := by
  have hroom : 64 + (efHashCapacityFromSb db.mem + 65536) * 16 + db.sb.maxSlots * 64 < u64 := hroom
  have hbase := db'.slotsBase_eq
  rw [h.hashCapacity, h.hashCap] at hbase
  have hlock : db'.sb.queueLock ≤ 1 := by
    rw [h.queueLock]
    split_ifs <;> norm_num
  refine ⟨⟨h.schema, ?_, h.readonly.trans hw, h.txnActive.trans hact⟩, ?_, ?_⟩
  · rw [h.undoLogBase, Nat.mod_eq_of_lt (by omega)]
    omega
  · exact load_eq_zero fun x hx hx' => h.locks x (by omega) (by omega)
  · exact load_eq_zero fun x hx hx' => h.locks x (by omega) (by omega)

/-- Growing a file does not touch its superblock. -/
lemma Grown.low {m' : Mem} {size' : ℕ} (h : Grown m size m' size') (hstored : Stored m size) :
    ∀ x, x < 64 → m' x = m x := by
  have hfits := hstored.fits
  exact fun x hx => h.same x (by omega)

/-! ### The open of a buffer -/

/-- **The open of a buffer** that holds an image: the size is that of the image's own schema. -/
lemma efOpenMemoryHash_stages {n cap : ℕ} {env : Env}
    (hok : (efOpenMemoryHash m size n cap false env).1 = .ok) :
    probeSize m ≤ size ∧ (fresh m (probeSize m) size .memory env).efDbInitExisting.1 = .ok ∧
      (efOpenMemoryHash m size n cap false env).2 =
        (fresh m (probeSize m) size .memory env).efDbInitExisting.2.setError .ok := by
  have hcap := efOpenMemoryHash_valid hok
  unfold efOpenMemoryHash at hok ⊢
  rw [if_neg (by simp [hcap])] at hok ⊢
  simp only [Bool.false_eq_true, if_false] at hok ⊢
  have hsize : efExpectedFileSize (Superblock.read m).maxSlots (efHashCapacityFromSb m)
      (if (Superblock.read m).schemaVersion = schemaVersion then undoLogDefaultSlots else 0) =
        probeSize m := rfl
  rw [hsize] at hok ⊢
  by_cases hp : decide ((!false) = true ∧ efMagicValid m = true ∧ (Superblock.read m).slotSize = 64) =
      true
  · rw [hp] at hok ⊢
    simp only [true_and, if_true] at hok ⊢
    by_cases h1 : size < probeSize m
    · rw [if_pos h1] at hok
      cases hok
    rw [if_neg h1, if_neg h1] at hok ⊢
    by_cases h2 : env.mallocFails = true
    · rw [if_pos h2] at hok
      cases hok
    rw [if_neg h2] at hok ⊢
    by_cases h3 : probeSize m = 0
    · rw [if_pos h3] at hok
      cases hok
    rw [if_neg h3] at hok ⊢
    have hinit := opened_ok.mp hok
    exact ⟨not_lt.mp h1, hinit, congrArg Prod.snd (opened_of_ok hinit)⟩
  · -- without the magic and the slot size the open fails
    exfalso
    rw [Bool.not_eq_true] at hp
    rw [hp] at hok
    simp only [Bool.false_eq_true, false_and, if_false] at hok
    have hfail : ∀ need, ¬ (fresh m need size .memory env).efDbInitExisting.1 = .ok := by
      intro need hinit
      have hw : (fresh m need size .memory env).readonly = false := rfl
      have hvalid := valid_of_efDbInitExisting hw hinit
      exact (decide_eq_false_iff_not.mp hp) ⟨rfl, hvalid.magic, hvalid.slotSize⟩
    split_ifs at hok
    exact hfail _ (opened_ok.mp hok)

/-! ### Handles of the size of their layout -/

/-- **Recovery** leaves a handle of the size of its layout. -/
lemma fitted_recover (h : db.Opening) (hf : db.Fitted) :
    db.efTxnRecoverFromStaleLock.2.Fitted ∧ db.efTxnRecoverFromStaleLock.2.Opening ∧
      db.efTxnRecoverFromStaleLock.2.sb.maxSlots = db.sb.maxSlots ∧
      db.efTxnRecoverFromStaleLock.2.undoLogSlots = db.undoLogSlots := by
  by_cases hactive : db.sb.txnState = txnStateActive
  · have hopening := (efTxnRecoverFromStaleLock_of_active h hactive).1
    obtain ⟨err, db₂, hrefits, heq⟩ := efTxnRecoverFromStaleLock_eq h hactive
    rw [heq] at hopening ⊢
    have hfit₀ : (({ db with txnState := txnStateAborting } : Db).setError .ok).Fitted :=
      ⟨hf.rooted, hf.room, hf.size, hf.cap⟩
    have hsame : (({ db with txnState := txnStateAborting } : Db).setError .ok).sb = db.sb ∧
        (({ db with txnState := txnStateAborting } : Db).setError .ok).undoLogSlots =
          db.undoLogSlots := ⟨rfl, rfl⟩
    generalize ({ db with txnState := txnStateAborting } : Db).setError .ok = db₀
      at hrefits hfit₀ hsame
    have hfit₂ := hrefits.fitted hfit₀
    have hmax : ((db₂.setTxnState txnStateNone).setTxnLock 0).sb.maxSlots = db₂.sb.maxSlots :=
      (load_store_of_disjoint (by omega)).trans (load_store_of_disjoint (by omega))
    have hcap : ((db₂.setTxnState txnStateNone).setTxnLock 0).sb.hashCap = db₂.sb.hashCap :=
      (load_store_of_disjoint (by omega)).trans (load_store_of_disjoint (by omega))
    have hmax₂ : db₂.sb.maxSlots = db.sb.maxSlots := by
      rw [hrefits.maxSlots hfit₀.rooted, hsame.1]
    refine ⟨⟨hopening.rooted, hfit₂.room, ?_, hcap.trans hfit₂.cap⟩, hopening, hmax.trans hmax₂,
      hrefits.undoLogSlots.trans hsame.2⟩
    have hsize := hfit₂.size
    rw [← hmax] at hsize
    exact hsize
  · rw [efTxnRecoverFromStaleLock_of_ne h hactive]
    exact ⟨hf, h, rfl, rfl⟩

/-- The rebuilt image needs no more than the size of its layout. -/
lemma Opening.need_rebuilt (h : db.Opening) (hf : db.Fitted)
    (hlogs : db.undoLogSlots = undoLogDefaultSlots) : db.efRebuildFreeList.need = db.fileSize := by
  have hframe := frame_efRebuildFreeList db
  have hfit' := hframe.toSized.refits.fitted hf
  have hopening' := h.keeps hframe.toKeeps
  unfold Db.need
  rw [efHashCapacityFromSb_eq hopening'.schema.ge, hframe.undoLogSlots, hlogs, hfit'.cap, ← hfit'.size]
  exact hframe.fileSize

/-- **A handle of the size of its layout** is finished by the rebuild. -/
lemma Opening.finishOpen_eq (h : db.Opening) (hf : db.Fitted) (hfault : db.rebuildFaults = false)
    (hlogs : db.undoLogSlots = undoLogDefaultSlots) : db.finishOpen = (.ok, db.efRebuildFreeList) :=
  finishOpen_of_le hfault (by rw [h.need_rebuilt hf hlogs, (frame_efRebuildFreeList db).fileSize])

/-- The capacity of a v5 image. -/
lemma efHashCapacityFromSb_read (hs : (Superblock.read m).schemaVersion = schemaVersion) :
    efHashCapacityFromSb m = (Superblock.read m).hashCap := by
  unfold efHashCapacityFromSb efSbHashCapacityLoad
  rw [hs, if_neg (by norm_num), if_pos le_rfl]
  rfl

/-- A fresh handle on a v5 image, bound to the size of the layout. -/
lemma fitted_fresh {F C : ℕ} {b : Backend} {env : Env} (hs : (Superblock.read m).schemaVersion =
    schemaVersion)
    (hfits : 64 + (Superblock.read m).hashCap * 16 + (Superblock.read m).maxSlots * 64 < u64)
    (hF : F = v5Size m) (hroom : b = .memory → F ≤ C) :
    (fresh m F C b env).Opening ∧ (fresh m F C b env).Fitted := by
  have hge : schemaVersion ≤ (fresh m F C b env).sb.schemaVersion := Eq.ge hs
  have hcap := efHashCapacityFromSb_read hs
  have hbase : 64 ≤ (fresh m F C b env).undoLogBase := by
    show 64 ≤ (64 + efHashCapacityFromSb m * 16 + (Superblock.read m).maxSlots * 64) % u64
    rw [hcap, Nat.mod_eq_of_lt hfits]
    omega
  exact ⟨⟨hs, hbase, rfl, rfl⟩, ⟨⟨hge, .inr hbase⟩, hroom, hF, hcap.symm⟩⟩

/-- The open of a v5 image, bound to the size of its layout: it is recovered, and the free list is
rebuilt. -/
lemma efDbInitExisting_v5 {C : ℕ} {b : Backend} {env : Env}
    (hs : (Superblock.read m).schemaVersion = schemaVersion)
    (hfits : 64 + (Superblock.read m).hashCap * 16 + (Superblock.read m).maxSlots * 64 < u64)
    (hroom : b = .memory → v5Size m ≤ C)
    (hok : (fresh m (v5Size m) C b env).efDbInitExisting.1 = .ok) :
    (fresh m (v5Size m) C b env).efTxnRecoverFromStaleLock.1 = .ok ∧
      (fresh m (v5Size m) C b env).efDbInitExisting.2 =
        (fresh m (v5Size m) C b env).efTxnRecoverFromStaleLock.2.efRebuildFreeList := by
  obtain ⟨hopening, hfit⟩ : (fresh m (v5Size m) C b env).Opening ∧
      (fresh m (v5Size m) C b env).Fitted :=
    fitted_fresh hs hfits rfl hroom
  have hinit : (fresh m (v5Size m) C b env).efDbInitExisting =
      (.ok, (fresh m (v5Size m) C b env).efDbInitExisting.2) := Prod.ext hok rfl
  have hlogs : (fresh m (v5Size m) C b env).undoLogSlots = undoLogDefaultSlots := rfl
  obtain ⟨hfit₁, hopening₁, -, hlogs₁⟩ := fitted_recover hopening hfit
  generalize (fresh m (v5Size m) C b env).efDbInitExisting.2 = db₂ at hinit ⊢
  obtain ⟨-, db₀, db₁, hmig, hrec, hfin⟩ := efDbInitExisting_stages hopening.writable hinit
  rw [fresh_bound, migrate_of_v5 hopening.schema] at hmig
  rw [← (Prod.mk.inj hmig).2] at hrec
  rw [hrec] at hfit₁ hopening₁ hlogs₁ ⊢
  rw [hopening₁.finishOpen_eq hfit₁ (not_rebuildFaults hfin) (hlogs₁.trans hlogs)] at hfin
  exact ⟨rfl, (Prod.mk.inj hfin).2.symm⟩

/-- **The open of a buffer** that holds a v5 image. -/
lemma efOpenMemoryHash_v5 {n cap : ℕ} {env : Env}
    (hs : (Superblock.read m).schemaVersion = schemaVersion)
    (hfits : 64 + (Superblock.read m).hashCap * 16 + (Superblock.read m).maxSlots * 64 < u64)
    (hok : (efOpenMemoryHash m size n cap false env).1 = .ok) :
    v5Size m ≤ size ∧ (fresh m (v5Size m) size .memory env).efTxnRecoverFromStaleLock.1 = .ok ∧
      (efOpenMemoryHash m size n cap false env).2 = ((fresh m (v5Size m) size .memory
        env).efTxnRecoverFromStaleLock.2.efRebuildFreeList).setError .ok := by
  obtain ⟨hprobe, hinit, heq⟩ := efOpenMemoryHash_stages hok
  have hF : probeSize m = v5Size m := by
    unfold probeSize
    rw [if_pos hs]
    rfl
  rw [hF] at hprobe hinit heq
  obtain ⟨hrec, hrebuilt⟩ := efDbInitExisting_v5 hs hfits (fun _ => hprobe) hinit
  exact ⟨hprobe, hrec, by rw [heq, hrebuilt]⟩

/-- **The open of a file** that holds a v5 image; the file has just the size of the layout. -/
lemma efOpenExHash_v5 {n cap : ℕ} {env : Env}
    (hs : (Superblock.read m).schemaVersion = schemaVersion)
    (hfits : 64 + (Superblock.read m).hashCap * 16 + (Superblock.read m).maxSlots * 64 < u64)
    (hsize : size ≠ 0) (hok : (efOpenExHash m size n cap env).1 = .ok) :
    size = v5Size m ∧
      (fresh m (v5Size m) (v5Size m) .file env).efTxnRecoverFromStaleLock.1 = .ok ∧
      (efOpenExHash m size n cap env).2 = ((fresh m (v5Size m) (v5Size m) .file
        env).efTxnRecoverFromStaleLock.2.efRebuildFreeList).setError .ok := by
  have hcap := efOpenExHash_valid hok
  have hmalloc : env.mallocFails = false := by
    by_contra hm
    unfold efOpenExHash at hok
    rw [if_neg (by simp [hcap]), if_pos (by simpa using hm)] at hok
    cases hok
  have hno : (Superblock.read m).schemaVersion < schemaVersion → v5Size m ≤ size :=
    fun hlt => absurd hs hlt.ne
  rw [efOpenExHash_of_no_growth hsize hcap hmalloc hno] at hok ⊢
  have hinit := opened_ok.mp hok
  have hF : size = v5Size m := (valid_of_efDbInitExisting rfl hinit).exact_size hs
  rw [opened_of_ok hinit]
  rw [hF] at hinit ⊢
  obtain ⟨hrec, hrebuilt⟩ := efDbInitExisting_v5 hs hfits (fun h => (by cases h)) hinit
  exact ⟨rfl, hrec, by rw [hrebuilt]⟩

/-- **The writable open of a v5 image**: a fresh handle of the size of the layout is recovered, and
the free list is rebuilt. -/
lemma WritableOpen.stages (hopen : WritableOpen m size db')
    (hs : (Superblock.read m).schemaVersion = schemaVersion)
    (hfits : 64 + (Superblock.read m).hashCap * 16 + (Superblock.read m).maxSlots * 64 < u64)
    (hsize : size ≠ 0) :
    ∃ C b env, (b = .memory → v5Size m ≤ C) ∧ v5Size m ≤ size ∧
      (fresh m (v5Size m) C b env).efTxnRecoverFromStaleLock.1 = .ok ∧
      db' = ((fresh m (v5Size m) C b
        env).efTxnRecoverFromStaleLock.2.efRebuildFreeList).setError .ok := by
  cases hopen with
  | memory maxSlots cap env hok =>
      obtain ⟨hle, hrec, heq⟩ := efOpenMemoryHash_v5 hs hfits hok
      exact ⟨size, .memory, env, fun _ => hle, hle, hrec, heq⟩
  | file initialSlots cap env hok =>
      obtain ⟨hF, hrec, heq⟩ := efOpenExHash_v5 hs hfits hsize hok
      exact ⟨v5Size m, .file, env, fun h => (by cases h), hF.ge, hrec, heq⟩

end Db

/-- An image of one slot of the given schema, with both kinds of checksums and nothing locked. -/
def imageOfSchema (schema : ℕ) : Mem :=
  ((Db.newMemory 1 0).setSchemaVersion schema).efSbChecksumStore.mem

end Endfields.Model
