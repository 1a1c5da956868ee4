import Endfields.Model.Visit
import Endfields.Reopen.Stages

/-!
# Files in the layout of an old schema

Schemas v2, v3 and v4 end their files with the slots; the undo segment came with v5. The one size
formula of the library counts the header of that segment for every schema.

* `OldImage m n h`: a right superblock of an old schema, for `n` slots and an index of capacity `h`.
* **`Db.efValidateSuperblock_old_iff`**: a file of just the size of its layout is accepted only if
  the 32 bytes of the undo header wrap around the 64-bit size.
* `Db.efValidateSuperblock_refuses_v4`: a v4 file of one slot is refused for its size.
-/

namespace Endfields.Model

open Endfields.Lib

/-- A superblock of schema v2, v3 or v4 that names `n` slots and an index of capacity `h`, with
nothing locked and a right checksum. -/
structure OldImage (m : Mem) (n h : ℕ) : Prop where
  magic : efMagicValid m = true
  slotSize : (Superblock.read m).slotSize = 64
  schema_ge : schemaVersionV2 ≤ (Superblock.read m).schemaVersion
  schema_le : (Superblock.read m).schemaVersion ≤ schemaVersionV4
  maxSlots : (Superblock.read m).maxSlots = n
  cap_valid : efHashCapacityValid h = true
  cap_v2 : (Superblock.read m).schemaVersion = schemaVersionV2 → h = 0
  cap_v3 : (Superblock.read m).schemaVersion = schemaVersionV3 → load m 56 4 = h ∧ load m 60 4 = 0
  cap_v4 : (Superblock.read m).schemaVersion = schemaVersionV4 →
    (Superblock.read m).hashCap = h ∧ (Superblock.read m).queueLock = 0 ∧
      (Superblock.read m).indexWriteLock = 0
  checksum : Db.efSbChecksumValid m = true

/-- The size that schemas v2, v3 and v4 define.
Source: `README.md`, File layout -/
def oldSize (n h : ℕ) : ℕ := 64 + 16 * h + 64 * n

variable {m : Mem} {n h : ℕ}

/-- The bytes of the v3 capacity are the v4 capacity and the two locks behind it. -/
lemma load_hashCap_of_unlocked (hqueue : (Superblock.read m).queueLock = 0)
    (hindex : (Superblock.read m).indexWriteLock = 0) : load m 56 4 = (Superblock.read m).hashCap := by
  have hq : load m 58 1 = 0 := hqueue
  have hi : load m 59 1 = 0 := hindex
  calc load m 56 4
      = load m 56 2 + 256 ^ 2 * load m 58 2 := load_add m 56 2 2
    _ = load m 56 2 + 256 ^ 2 * (load m 58 1 + 256 ^ 1 * load m 59 1) := by rw [load_add m 58 1 1]
    _ = load m 56 2 := by rw [hq, hi]; rfl

/-- The capacity is decoded right. -/
lemma OldImage.cap_eq (himage : OldImage m n h) : efHashCapacityFromSb m = h := by
  have hge := himage.schema_ge
  have hle := himage.schema_le
  unfold efHashCapacityFromSb efSbHashCapacityLoad
  simp only [schemaVersionV2, schemaVersionV4] at hge hle
  have hcases : (Superblock.read m).schemaVersion = 2 ∨ (Superblock.read m).schemaVersion = 3 ∨
      (Superblock.read m).schemaVersion = 4 := by omega
  rcases hcases with h2 | h3 | h4
  · rw [if_pos (by rw [h2]; decide)]
    exact (himage.cap_v2 h2).symm
  · rw [if_neg (by rw [h3]; decide), if_neg (by rw [h3]; decide), if_pos (by rw [h3]; decide)]
    exact (himage.cap_v3 h3).1
  · obtain ⟨hcap, hqueue, hindex⟩ := himage.cap_v4 h4
    rw [if_neg (by rw [h4]; decide), if_neg (by rw [h4]; decide), if_pos (by rw [h4]; decide)]
    rw [load_hashCap_of_unlocked hqueue hindex]
    exact hcap

lemma OldImage.schema_ne (himage : OldImage m n h) :
    (Superblock.read m).schemaVersion ≠ schemaVersion := by
  have hle := himage.schema_le
  intro hs
  rw [hs] at hle
  exact absurd hle (by decide)

/-- Only the size decides about an old image. -/
lemma OldImage.valid_iff (himage : OldImage m n h) {size : ℕ} :
    Valid m size ↔ efExpectedFileSize n h 0 ≤ size := by
  have hcap := himage.cap_eq
  refine ⟨?_, ?_⟩
  · intro hvalid
    have hmin := hvalid.min_size himage.schema_ne
    rwa [hcap, himage.maxSlots] at hmin
  · intro hsize
    exact {
      magic := himage.magic
      slotSize := himage.slotSize
      schema := himage.schema_le.trans (by decide)
      cap := hcap.symm ▸ himage.cap_valid
      exact_size := fun hs => absurd hs himage.schema_ne
      min_size := fun _ => by rwa [hcap, himage.maxSlots]
      checksum := himage.checksum }

namespace Db

/-- A valid image is opened for reading. -/
lemma efOpenReadonlyEx_of_valid {size : ℕ} {env : Env} (hmalloc : env.mallocFails = false)
    (hsize : size ≠ 0) (hok : efValidateSuperblock m size = .ok) :
    (efOpenReadonlyEx m size env).1 = .ok := by
  have hinit : ({ fresh m size size .file env with readonly := true } : Db).efDbInitExisting =
      (.ok, { fresh m size size .file env with readonly := true }) := by
    unfold efDbInitExisting
    have hok' : efValidateSuperblock
        ({ fresh m size size .file env with readonly := true } : Db).mem
        ({ fresh m size size .file env with readonly := true } : Db).fileSize = .ok := hok
    rw [hok']
    rfl
  unfold efOpenReadonlyEx
  rw [hmalloc]
  simp only [Bool.false_eq_true, if_false, if_neg hsize]
  rw [hinit]

/-- **A file in the layout of its old schema** is accepted exactly if the size of the undo header,
which the file does not have, wraps around. -/
theorem efValidateSuperblock_old_iff (himage : OldImage m n h) (hsize : oldSize n h < u64) :
    (efValidateSuperblock m (oldSize n h) = .ok ∧
      ∀ env : Env, env.mallocFails = false → (efOpenReadonlyEx m (oldSize n h) env).1 = .ok) ↔
        u64 ≤ oldSize n h + 32 := by
  have hneed : efExpectedFileSize n h 0 = (oldSize n h + 32) % u64 := by
    unfold efExpectedFileSize oldSize
    congr 1
    ring
  have hpos : oldSize n h ≠ 0 := by
    unfold oldSize
    omega
  have hwrap : (oldSize n h + 32) % u64 ≤ oldSize n h ↔ u64 ≤ oldSize n h + 32 := by
    unfold u64 at hsize ⊢
    omega
  rw [← hwrap, ← hneed, ← himage.valid_iff, ← efValidateSuperblock_ok_iff]
  refine ⟨fun hok => hok.1, fun hok => ⟨hok, ?_⟩⟩
  intro env hmalloc
  exact efOpenReadonlyEx_of_valid hmalloc hpos hok

lemma oldImage_of_schema : OldImage (imageOfSchema 4) 1 0 := by
  refine ⟨?_, ?_, ?_, ?_, ?_, ?_, ?_, ?_, ?_, ?_⟩ <;> decide +kernel

/-- A v4 file of one slot: its 128 bytes do not reach the end of the address space. -/
theorem efValidateSuperblock_old_of_v4 :
    (efValidateSuperblock (imageOfSchema 4) (oldSize 1 0) = .ok ∧
      ∀ env : Env, env.mallocFails = false →
        (efOpenReadonlyEx (imageOfSchema 4) (oldSize 1 0) env).1 = .ok) ↔ u64 ≤ oldSize 1 0 + 32 :=
  efValidateSuperblock_old_iff oldImage_of_schema (by decide)

/-- The file is refused. -/
theorem efValidateSuperblock_refuses_v4 :
    OldImage (imageOfSchema 4) 1 0 ∧ oldSize 1 0 = 128 ∧
      efValidateSuperblock (imageOfSchema 4) 128 = .fileSize ∧
        (efOpenReadonlyEx (imageOfSchema 4) 128 Env.quiet).1 = .fileSize := by
  refine ⟨oldImage_of_schema, rfl, ?_, ?_⟩ <;> decide +kernel

end Db

end Endfields.Model
