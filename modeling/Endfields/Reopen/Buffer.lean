import Endfields.Reopen.Sizes

/-!
# An image opened in a buffer

The buffer is measured against the layout that the image has on disk; the migration comes
afterwards, and raises the size to that of schema v5.

* `Db.InBuffer`: the size of the file, the slot region and the undo segment lie in the buffer.
* **`Db.efOpenMemoryHash_inBuffer_iff`**: an accepted open stays in the buffer exactly if the image
  is a v5 image, or the buffer holds the v5 layout.
-/

namespace Endfields.Model

open Endfields.Lib

namespace Db

variable {m : Mem} {size n cap : ℕ} {env : Env} {db : Db}

/-- What the handle reaches lies in a buffer of `size` bytes. -/
structure InBuffer (db : Db) (size : ℕ) : Prop where
  file : db.fileSize ≤ size
  slots : db.slotsBase + 64 * db.sb.maxSlots ≤ size
  undo : db.undoLogBase + undoLogBytes db.undoLogSlots ≤ size

lemma boundCapacity_le (hvalid : efHashCapacityValid (efHashCapacityFromSb m) = true) :
    boundCapacity m ≤ 131071 := by
  have hcap := efHashCapacityValid_le hvalid
  unfold boundCapacity
  split_ifs <;> omega

/-- Recovery may move the slots of a v5 image, but only within the buffer; the undo segment stays
where the image has it. -/
lemma OpenedV5.inBuffer (h : OpenedV5 m size db) (hprobe : probeSize m ≤ size)
    (hs : (Superblock.read m).schemaVersion = schemaVersion)
    (hcap : efHashCapacityFromSb m ≤ 0xFFFF)
    (hfits : exactSize (Superblock.read m).maxSlots 131071 < u64) : db.InBuffer size := by
  have hroom := h.room
  have hbase := db.slotsBase_eq
  have hundo := h.undoLogBase
  rw [exactSize_eq] at hfits
  have hexact : probeSize m = exactSize (Superblock.read m).maxSlots (efHashCapacityFromSb m) := by
    have hlt : exactSize (Superblock.read m).maxSlots (efHashCapacityFromSb m) < u64 := by
      rw [exactSize_eq]
      omega
    unfold probeSize
    rw [if_pos hs, efExpectedFileSize_exact, Nat.mod_eq_of_lt hlt]
  rw [hexact, exactSize_eq] at hprobe
  rw [Nat.mod_eq_of_lt (by omega)] at hundo
  refine ⟨hroom, ?_, ?_⟩
  · rw [h.fileSize, exactSize_eq] at hroom
    rw [h.maxSlots]
    omega
  · rw [hundo, h.undoLogSlots]
    simp only [undoLogBytes, undoLogDefaultSlots]
    omega

/-- The undo segment of an older image is the end of the v5 layout. -/
lemma OpenedOlder.inBuffer_iff (h : OpenedOlder m size db) (hcap : boundCapacity m ≤ 131071)
    (hfits : exactSize (Superblock.read m).maxSlots 131071 < u64) :
    db.InBuffer size ↔ exactSize (Superblock.read m).maxSlots (boundCapacity m) ≤ size := by
  have hbase := db.slotsBase_eq
  have hundo := h.undoLogBase
  have hle : efHashCapacityFromSb m ≤ boundCapacity m := Nat.le_add_right _ _
  rw [exactSize_eq] at hfits
  rw [h.hashCapacity] at hbase
  rw [Nat.mod_eq_of_lt (by omega)] at hundo
  have hend : db.undoLogBase + undoLogBytes db.undoLogSlots =
      exactSize (Superblock.read m).maxSlots (boundCapacity m) := by
    rw [hundo, h.undoLogSlots, hbase, exactSize_eq]
    simp only [undoLogBytes, undoLogDefaultSlots]
    omega
  refine ⟨fun hin => hend ▸ hin.undo, fun hroom => ⟨?_, ?_, hend.trans_le hroom⟩⟩
  · rw [exactSize_eq] at hroom
    rw [h.fileSize, exactSize_eq]
    omega
  · rw [exactSize_eq] at hroom
    rw [h.maxSlots]
    omega

/-- **The open of a buffer stays in it exactly if the v5 layout fits.** That is so of a v5 image,
whose size was checked; an image of an older schema is checked for its own layout, and then given
the size of a v5 one. -/
theorem efOpenMemoryHash_inBuffer_iff (hfits : exactSize (Superblock.read m).maxSlots 131071 < u64)
    (hok : (efOpenMemoryHash m size n cap false env).1 = .ok) :
    (efOpenMemoryHash m size n cap false env).2.InBuffer size ↔
      (Superblock.read m).schemaVersion = schemaVersion ∨
        exactSize (Superblock.read m).maxSlots (boundCapacity m) ≤ size := by
  obtain ⟨hprobe, hinit, heq⟩ := efOpenMemoryHash_stages hok
  rw [heq]
  have hinit' : (fresh m (probeSize m) size .memory env).efDbInitExisting =
      (.ok, (fresh m (probeSize m) size .memory env).efDbInitExisting.2) := Prod.ext hinit rfl
  generalize (fresh m (probeSize m) size .memory env).efDbInitExisting.2 = db at hinit' ⊢
  have hw : (fresh m (probeSize m) size .memory env).readonly = false := rfl
  have hvalid : efHashCapacityValid (efHashCapacityFromSb m) = true :=
    (efDbInitExisting_stages hw hinit').1.cap
  have hset : (db.setError .ok).InBuffer size ↔ db.InBuffer size :=
    ⟨fun h => ⟨h.file, h.slots, h.undo⟩, fun h => ⟨h.file, h.slots, h.undo⟩⟩
  rw [hset]
  by_cases hs : (Superblock.read m).schemaVersion = schemaVersion
  · have hopened := openedV5 hs hfits hprobe hinit'
    exact ⟨fun _ => .inl hs,
      fun _ => hopened.inBuffer hprobe hs (efHashCapacityValid_le hvalid) hfits⟩
  · rw [(openedOlder hs hfits hinit').inBuffer_iff (boundCapacity_le hvalid) hfits]
    exact ⟨.inr, fun h => h.resolve_left hs⟩

/-- A v4 image of one slot, in a buffer with room for the undo segment. -/
theorem efOpenMemoryHash_inBuffer_of_room :
    (efOpenMemoryHash (imageOfSchema 4) 131232 1 0 false Env.quiet).2.InBuffer 131232 :=
  (@efOpenMemoryHash_inBuffer_iff (imageOfSchema 4) 131232 1 0 Env.quiet (by decide +kernel)
    (by decide +kernel)).mpr (.inr (by decide +kernel))

/-- The same image in a buffer of just its own size. -/
theorem efOpenMemoryHash_leaves_buffer :
    (efOpenMemoryHash (imageOfSchema 4) 160 0 0 false Env.quiet).1 = .ok ∧
    (efOpenMemoryHash (imageOfSchema 4) 160 0 0 false Env.quiet).2.fileSize = 131232 ∧
    ¬ (efOpenMemoryHash (imageOfSchema 4) 160 0 0 false Env.quiet).2.InBuffer 160 := by
  have hsize : (efOpenMemoryHash (imageOfSchema 4) 160 0 0 false Env.quiet).2.fileSize = 131232 := by
    decide +kernel
  refine ⟨by decide +kernel, hsize, fun h => ?_⟩
  have hfile := h.file
  rw [hsize] at hfile
  exact absurd hfile (by norm_num)

end Db

end Endfields.Model
