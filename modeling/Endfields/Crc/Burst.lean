import Endfields.Crc.Table
import Endfields.Model.Open

/-!
# Burst errors in a slot

The checksum of a used slot is the CRC over its id, its status, its payload and its link, fed in
four pieces. The CRC tells any two contents apart that differ in one window of four bytes, so no
such change gets past `ef_get_slot`.

* `efSlotHeaderCrcComputeFull_read`: the checksum as one CRC over the bytes of the slot.
* `efSlotHeaderCrcComputeFull_ne_of_burst`: two contents with one window between them.
* **Main result** (`efGetSlot_of_burst`): the slot is refused after the change.
-/

namespace Endfields.Model

open Endfields.Lib

/-- Update after update is the CRC over what was put in. -/
lemma efCrc32Update_append {crc : ℕ} (hcrc : crc < 2 ^ 32) (bs bs' : List UInt8) :
    efCrc32Update (crc32Feed crc bs) bs' = crc32Feed crc (bs ++ bs') :=
  (efCrc32UpdateSlice4_eq_feed (crc32Feed_lt hcrc bs) bs').trans
    (crcFeed_append crc32Poly crc bs bs').symm

/-- The checksum is one CRC over id, status and the 56 bytes behind the checksum field. -/
lemma efSlotHeaderCrcComputeFull_read (slotId : ℕ) (m : Mem) (p : ℕ) :
    efSlotHeaderCrcComputeFull slotId (Slot.read m p) =
      crc32Feed 0xFFFFFFFF (leBytes 8 slotId ++ leBytes 4 (load m p 4) ++ readBytes m (p + 8) 56) ^^^
        0xFFFFFFFF := by
  have hinit : 0xFFFFFFFF < 2 ^ 32 := by decide
  have hsplit : readBytes m (p + 8) 56 =
      readBytes m (p + 8) 48 ++ leBytes 8 (load m (p + 56) 8) := by
    rw [leBytes_load]
    exact readBytes_add m (p + 8) 48 8
  have hfirst : efCrc32Update 0xFFFFFFFF (leBytes 8 slotId) =
      crc32Feed 0xFFFFFFFF (leBytes 8 slotId) := efCrc32UpdateSlice4_eq_feed hinit _
  unfold efSlotHeaderCrcComputeFull Slot.read
  dsimp only
  rw [hfirst, efCrc32Update_append hinit, efCrc32Update_append hinit, efCrc32Update_append hinit,
    hsplit, List.append_assoc _ (readBytes m (p + 8) 48)]

section Burst

variable {m m' : Mem} {p w : ℕ}
  (hw : p + 8 ≤ w) (hw' : w + 4 ≤ p + 64)
  (hsame : ∀ x, x < w ∨ w + 4 ≤ x → m' x = m x)

include hw hw'

/-- The bytes behind the checksum field, cut at the window. -/
lemma readBytes_cut (m : Mem) :
    readBytes m (p + 8) 56 =
      readBytes m (p + 8) (w - (p + 8)) ++ readBytes m w 4 ++ readBytes m (w + 4) (p + 60 - w) := by
  have hlen : 56 = w - (p + 8) + (4 + (p + 60 - w)) := by omega
  have hat : p + 8 + (w - (p + 8)) = w := by omega
  rw [hlen, readBytes_add, hat, readBytes_add, List.append_assoc]

include hsame

/-- The status word is in front of the window. -/
lemma status_of_burst : (Slot.read m' p).status = (Slot.read m p).status := by
  apply load_congr
  intro x _ hx
  exact hsame x (Or.inl (by omega))

lemma headerCrc_of_burst : (Slot.read m' p).headerCrc = (Slot.read m p).headerCrc := by
  apply load_congr
  intro x _ hx
  exact hsame x (Or.inl (by omega))

/-- A change of the window changes the checksum. -/
lemma efSlotHeaderCrcComputeFull_ne_of_burst (hdiff : ∃ x, m' x ≠ m x) (slotId : ℕ) :
    efSlotHeaderCrcComputeFull slotId (Slot.read m' p) ≠
      efSlotHeaderCrcComputeFull slotId (Slot.read m p) := by
  intro heq
  have hstatus : load m' p 4 = load m p 4 := status_of_burst hw hw' hsame
  have hpre : readBytes m' (p + 8) (w - (p + 8)) = readBytes m (p + 8) (w - (p + 8)) :=
    readBytes_congr fun x _ hx => hsame x (Or.inl (by omega))
  have hpost : readBytes m' (w + 4) (p + 60 - w) = readBytes m (w + 4) (p + 60 - w) :=
    readBytes_congr fun x hx _ => hsame x (Or.inr hx)
  rw [efSlotHeaderCrcComputeFull_read, efSlotHeaderCrcComputeFull_read] at heq
  have hfeed := Nat.xor_left_inj.1 heq
  rw [readBytes_cut hw hw' m, readBytes_cut hw hw' m', hstatus, hpre, hpost, ← List.append_assoc,
    ← List.append_assoc, ← List.append_assoc, ← List.append_assoc] at hfeed
  have hinit : 0xFFFFFFFF < 2 ^ 32 := by decide
  have hwindow : readBytes m' w 4 = readBytes m w 4 := by
    apply crcFeed_window_inj crc32Poly_lt crc32Poly_top hinit _ _ _ _ hfeed
    · rw [length_readBytes, length_readBytes]
    · rw [length_readBytes]
  obtain ⟨x, hx⟩ := hdiff
  have hin : w ≤ x ∧ x < w + 4 := by
    by_contra hout
    exact hx (hsame x (by omega))
  have hlt : x - w < (readBytes m w 4).length := by
    rw [length_readBytes]
    omega
  have hbyte := getElem_readBytes m w 4 (x - w) hlt
  have hbyte' := getElem_readBytes m' w 4 (x - w) (by rwa [hwindow])
  rw [Nat.add_sub_cancel' hin.1] at hbyte hbyte'
  apply hx
  rw [← hbyte, ← hbyte']
  simp only [hwindow]

end Burst

namespace Db

variable {db : Db} {i w : ℕ} {m' : Mem}

/-- What the validator says of a slot with payload and link under its checksum. -/
lemma efSlotHeaderCrcValid_full (hcrc : db.sb.slotCrc = true) {slot : Slot}
    (hstatus : slot.status = statusUsed ∨ slot.status = statusOverflow) :
    db.efSlotHeaderCrcValid i slot = true ↔
      slot.headerCrc ≠ 0 ∧ slot.headerCrc = efSlotHeaderCrcComputeFull i slot := by
  have hhas : efSlotStatusHasCrc slot.status = true := by
    rcases hstatus with h | h <;> rw [h] <;> rfl
  have hlink : efSlotStatusUsesLinkCrc slot.status = false := by
    rcases hstatus with h | h <;> rw [h] <;> rfl
  have hcompute : efSlotHeaderCrcCompute i slot = efSlotHeaderCrcComputeFull i slot := by
    unfold efSlotHeaderCrcCompute
    rw [hlink]
    rfl
  unfold efSlotHeaderCrcValid
  rw [hcrc, hhas, hcompute, hlink]
  by_cases h0 : slot.headerCrc = 0
  · simp [h0]
  · by_cases hc : slot.headerCrc = efSlotHeaderCrcComputeFull i slot
    · simp [h0, ← hc]
    · simp [h0, hc]

/-- **Burst errors are caught.** -/
theorem efGetSlot_of_burst (hcrc : db.sb.slotCrc = true) (hi : i < db.sb.maxSlots)
    (hstatus : (db.slot i).status = statusUsed ∨ (db.slot i).status = statusOverflow)
    (hvalid : db.efSlotHeaderCrcValid i (db.slot i) = true)
    (hw : db.slotPtr i + 8 ≤ w) (hw' : w + 4 ≤ db.slotPtr i + 64)
    (hsame : ∀ x, x < w ∨ w + 4 ≤ x → m' x = db.mem x) (hdiff : ∃ x, m' x ≠ db.mem x) :
    (db.withMem m').efGetSlot i = (none, (db.withMem m').setError .badChecksum) := by
  -- the superblock is in front of every slot
  have hsb : (db.withMem m').sb = db.sb := by
    have hbase := db.slotsBase_ge
    unfold slotPtr at hw
    have hload : ∀ a n, a + n ≤ 64 → load m' a n = load db.mem a n := by
      intro a n h
      apply load_congr
      intro x _ hx
      exact hsame x (Or.inl (by omega))
    unfold sb Superblock.read
    simp only [mem_withMem]
    rw [hload 0 4 (by decide), hload 4 4 (by decide), hload 8 8 (by decide), hload 16 8 (by decide),
      hload 24 4 (by decide), hload 28 4 (by decide), hload 32 4 (by decide), hload 36 4 (by decide),
      hload 40 8 (by decide), hload 48 8 (by decide), hload 56 2 (by decide), hload 58 1 (by decide),
      hload 59 1 (by decide), hload 60 1 (by decide), hload 61 1 (by decide), hload 62 2 (by decide)]
  have hst : (Slot.read m' (db.slotPtr i)).status = (db.slot i).status :=
    status_of_burst hw hw' hsame
  have hhc : (Slot.read m' (db.slotPtr i)).headerCrc = (db.slot i).headerCrc :=
    headerCrc_of_burst hw hw' hsame
  have hne : efSlotHeaderCrcComputeFull i (Slot.read m' (db.slotPtr i)) ≠
      efSlotHeaderCrcComputeFull i (db.slot i) :=
    efSlotHeaderCrcComputeFull_ne_of_burst hw hw' hsame hdiff i
  have hstatus' : (Slot.read m' (db.slotPtr i)).status = statusUsed ∨
      (Slot.read m' (db.slotPtr i)).status = statusOverflow := by rwa [hst]
  have hinvalid : ((db.withMem m').setError .ok).efSlotHeaderCrcValid i
      (Slot.read m' (db.slotPtr i)) = false := by
    rw [Bool.eq_false_iff]
    intro hv
    have hcrc' : ((db.withMem m').setError .ok).sb.slotCrc = true := (congrArg _ hsb).trans hcrc
    obtain ⟨-, heq'⟩ := (efSlotHeaderCrcValid_full hcrc' hstatus').1 hv
    obtain ⟨-, heq⟩ := (efSlotHeaderCrcValid_full hcrc hstatus).1 hvalid
    exact hne (by rw [← heq', hhc, heq])
  have hhas : efSlotStatusHasCrc (Slot.read m' (db.slotPtr i)).status = true := by
    rcases hstatus' with h | h <;> rw [h] <;> rfl
  have hpeek : (db.withMem m').efPeekSlot i = (some (db.slotPtr i), (db.withMem m').setError .ok) := by
    unfold efPeekSlot
    rw [if_neg (by rw [hsb]; exact Nat.not_le.2 hi)]
    rfl
  unfold efGetSlot
  rw [hpeek]
  dsimp only
  have hread : ((db.withMem m').setError .ok).slotAt (db.slotPtr i) = Slot.read m' (db.slotPtr i) := rfl
  rw [hread, if_pos ⟨hhas, hinvalid⟩]
  rfl

/-- A bit of the payload of an allocated slot is flipped. -/
theorem efGetSlot_of_burst_bit :
    let db := (newMemory 1 0).efAllocSlot.2.2
    db.efGetSlot 0 = (some 64, db.setError .ok) ∧
      (db.withMem (Lib.store db.mem 72 1 1)).efGetSlot 0 =
        (none, (db.withMem (Lib.store db.mem 72 1 1)).setError .badChecksum) := by
  intro db
  obtain ⟨hcrc, hi, hstatus, hvalid, hptr, hdiff, hget⟩ :
      db.sb.slotCrc = true ∧ 0 < db.sb.maxSlots ∧ (db.slot 0).status = statusUsed ∧
        db.efSlotHeaderCrcValid 0 (db.slot 0) = true ∧ db.slotPtr 0 = 64 ∧
          Lib.store db.mem 72 1 1 72 ≠ db.mem 72 ∧ (db.efGetSlot 0).1 = some 64 := by decide +kernel
  refine ⟨?_, ?_⟩
  · have hnext : (db.efGetSlot 0).2 = db.setError .ok := by
      unfold efGetSlot efPeekSlot
      rw [if_neg (Nat.not_le.2 hi)]
      dsimp only
      have hok : ((db.setError .ok).efSlotHeaderCrcValid 0 ((db.setError .ok).slotAt (db.slotPtr 0))) =
          true := hvalid
      rw [if_neg (by rw [hok]; simp)]
    rw [← hget, ← hnext]
  · have hw : db.slotPtr 0 + 8 ≤ 72 := by rw [hptr]
    have hw' : 72 + 4 ≤ db.slotPtr 0 + 64 := by
      rw [hptr]
      decide
    refine efGetSlot_of_burst hcrc hi (Or.inl hstatus) hvalid hw hw' ?_ ⟨72, hdiff⟩
    intro x hx
    exact store_apply_of_outside (by omega)

end Db

end Endfields.Model
