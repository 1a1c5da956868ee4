import Endfields.Reopen.Stages

/-!
# Images that an open migrates

The migration chain of an open is keyed on the schema and on the presence of an index: v3 goes to v4
only with an index, and only v4 goes to v5.

* **`Db.open_begins_iff`**: the writable open of a v2, v3 or v4 file ends at schema v5, ready for a
  transaction, exactly if the image is v4, or v3 with an index.
* `Db.open_leaves_v3`: a v3 file without an index stays at v3, and its transactions are refused.
-/

namespace Endfields.Model

open Endfields.Lib

namespace Db

variable {m : Mem} {size n cap : ℕ} {env : Env}

/-- An image that is migrated ends idle, at schema v5. -/
lemma idle_of_migrates {db db' : Db} (h : Migrates db.mem) (hbind : db.efDbBindSlotsLayout = db)
    (hw : db.readonly = false) (hact : db.txnActive = false) (hstate : db.txnState = txnStateNone)
    (hroom : HasRoom db.mem)
    (hok : db.efDbInitExisting = (.ok, db')) :
    (db'.setError .ok).Opening ∧ (db'.setError .ok).Idle := by
  obtain ⟨hvalid, db₁, db₂, hmig, hrec, hfin⟩ := efDbInitExisting_stages hw hok
  obtain ⟨db₁', hmig', hspec⟩ := migrate_of_migrates h hbind (efHashCapacityValid_le hvalid.cap) hroom
  obtain ⟨hopening, hlock, hst⟩ := hspec.opening hw hact hroom
  rw [hbind, hmig'] at hmig
  cases hmig
  -- recovery finds the cleared state
  rw [efTxnRecoverFromStaleLock_of_ne hopening (by rw [hst]; norm_num)] at hrec
  cases hrec
  have hkeeps := keeps_finishOpen db₁
  rw [hfin] at hkeeps
  have hkeeps : Keeps db₁ (db'.setError .ok) := Keeps.trans hkeeps (Frame.refl db').setError.toKeeps
  exact ⟨hopening.keeps hkeeps,
    (hopening.idle_iff_of_keeps (hspec.txnState.trans hstate) hkeeps).mpr ⟨hlock, hst⟩⟩

/-- An image of an old schema that is not migrated keeps its schema. -/
lemma schema_of_not_migrates {db db' : Db} (h : ¬ Migrates db.mem)
    (hbind : db.efDbBindSlotsLayout = db) (hw : db.readonly = false) (hfile : db.backend = .file)
    (hne : db.sb.schemaVersion ≠ 0) (hlt : db.sb.schemaVersion < schemaVersion)
    (hok : db.efDbInitExisting = (.ok, db')) : db'.sb.schemaVersion = db.sb.schemaVersion := by
  obtain ⟨-, db₁, db₂, hmig, hrec, hfin⟩ := efDbInitExisting_stages hw hok
  rw [hbind, migrate_of_not_migrates h] at hmig
  cases hmig
  have hnone : db.efTxnRecoverFromStaleLock = (.ok, db) := if_pos hlt
  rw [hnone] at hrec
  cases hrec
  rw [(finishOpen_file hfile hfin).1]
  exact load_congr fun x hx hx' =>
    (rebuilds_efRebuildFreeList hne).mem x (.inr (.inl ⟨hx, by omega⟩))

/-- **The open of a v2, v3 or v4 file** ends at schema v5, where a transaction begins, exactly if
the image is v4, or v3 with an index. -/
theorem open_begins_iff (hstored : Stored m size)
    (hge : schemaVersionV2 ≤ (Superblock.read m).schemaVersion)
    (hle : (Superblock.read m).schemaVersion ≤ schemaVersionV4)
    (hok : (efOpenExHash m size n cap env).1 = .ok) :
    ((efOpenExHash m size n cap env).2.sb.schemaVersion = schemaVersion ∧
      ((efOpenExHash m size n cap env).2.env.contention = [] →
        (efOpenExHash m size n cap env).2.efTxnBegin.1 = .ok)) ↔
      (Superblock.read m).schemaVersion = schemaVersionV4 ∨
        (Superblock.read m).schemaVersion = schemaVersionV3 ∧ 0 < efHashCapacityFromSb m := by
  obtain ⟨m', size', hgrown, hinit, heq⟩ := efOpenExHash_stages hstored.size_ne hok
  have hlow := hgrown.low hstored
  have hsb : Superblock.read m' = Superblock.read m := Superblock.read_congr hlow
  have hcap : efHashCapacityFromSb m' = efHashCapacityFromSb m :=
    efHashCapacityFromSb_congr fun x hx => hlow x (by omega)
  rw [heq]
  have hinit' : (fresh m' size' size' .file env).efDbInitExisting =
      (.ok, (fresh m' size' size' .file env).efDbInitExisting.2) := Prod.ext hinit rfl
  generalize (fresh m' size' size' .file env).efDbInitExisting.2 = db at hinit' ⊢
  by_cases hmig : Migrates m
  · have hroom : HasRoom m' := by
      unfold HasRoom
      rw [hcap, hsb]
      exact hstored.room
    obtain ⟨hopening, hidle⟩ := idle_of_migrates ((migrates_congr hlow).mpr hmig)
      (fresh_bound m' size' size' .file env) rfl rfl rfl hroom hinit'
    exact ⟨fun _ => hmig, fun _ => ⟨hopening.schema, hidle.2.2.2⟩⟩
  · have hs : db.sb.schemaVersion = (Superblock.read m').schemaVersion :=
      schema_of_not_migrates (fun h => hmig ((migrates_congr hlow).mp h))
        (fresh_bound m' size' size' .file env) rfl rfl
        (show (Superblock.read m').schemaVersion ≠ 0 by
          rw [hsb]
          simp only [schemaVersionV2] at hge
          omega)
        (show (Superblock.read m').schemaVersion < schemaVersion by
          rw [hsb]
          simp only [schemaVersionV4, schemaVersion] at hle ⊢
          omega) hinit'
    refine ⟨fun ⟨hv5, _⟩ => ?_, fun h => absurd h hmig⟩
    have hv5' : db.sb.schemaVersion = schemaVersion := hv5
    rw [hs, hsb] at hv5'
    simp only [schemaVersionV4, schemaVersion] at hle hv5'
    omega

lemma stored_v4_v3 : Stored (imageOfSchema 4) 160 ∧ Stored (imageOfSchema 3) 160 := by
  refine ⟨⟨?_, ?_⟩, ⟨?_, ?_⟩⟩ <;> decide +kernel

/-- A v4 file. -/
theorem open_begins_iff_of_v4 : Stored (imageOfSchema 4) 160 ∧
    (efOpenExHash (imageOfSchema 4) 160 1 0 Env.quiet).1 = .ok ∧
    (((efOpenExHash (imageOfSchema 4) 160 1 0 Env.quiet).2.sb.schemaVersion = schemaVersion ∧
      ((efOpenExHash (imageOfSchema 4) 160 1 0 Env.quiet).2.env.contention = [] →
        (efOpenExHash (imageOfSchema 4) 160 1 0 Env.quiet).2.efTxnBegin.1 = .ok)) ↔
        (Superblock.read (imageOfSchema 4)).schemaVersion = schemaVersionV4 ∨
          (Superblock.read (imageOfSchema 4)).schemaVersion = schemaVersionV3 ∧
            0 < efHashCapacityFromSb (imageOfSchema 4)) :=
  ⟨stored_v4_v3.1, by decide +kernel,
    open_begins_iff stored_v4_v3.1 (by decide +kernel) (by decide +kernel) (by decide +kernel)⟩

/-- A v3 file without an index: it is opened, and its transactions are refused. -/
theorem open_leaves_v3 : Stored (imageOfSchema 3) 160 ∧
    (Superblock.read (imageOfSchema 3)).schemaVersion = schemaVersionV3 ∧
    (Superblock.read (imageOfSchema 3)).flags = 3 ∧ (Superblock.read (imageOfSchema 3)).queueLock = 0 ∧
    load (imageOfSchema 3) 60 4 = 0 ∧ (efOpenExHash (imageOfSchema 3) 160 1 0 Env.quiet).1 = .ok ∧
    (efOpenExHash (imageOfSchema 3) 160 1 0 Env.quiet).2.sb.schemaVersion = schemaVersionV3 ∧
    (efOpenExHash (imageOfSchema 3) 160 1 0 Env.quiet).2.efTxnBegin.1 = .badVersion :=
  ⟨stored_v4_v3.2, by decide +kernel, by decide +kernel, by decide +kernel, by decide +kernel,
    by decide +kernel, by decide +kernel, by decide +kernel⟩

end Db

end Endfields.Model
