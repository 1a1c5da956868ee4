import Endfields.Model.Base

/-!
# CRC-32

The table-driven CRC of `ef_crc.c`: the byte table, the four slices derived from it, and the
slicing-by-4 update. `efCrc32Update` is the portable path; on x86-64 the library switches to
carry-less multiplication for buffers of 64 bytes and more, and every buffer checksummed by the
functions modelled here (superblock parts, slot fields, undo header fields) is shorter than that.
-/

namespace Endfields.Model

open Endfields.Lib

/-- One round of the inner loop that fills the byte table.
Source: `ef_crc.c`, `ef_crc32_init_tables` -/
def crcBitStep (crc : ℕ) : ℕ :=
  if crc % 2 = 1 then (crc >>> 1) ^^^ 0xEDB88320 else crc >>> 1

/-- Source: `ef_crc.c`, `ef_crc32_table` -/
def efCrc32Table (i : ℕ) : ℕ := crcBitStep^[8] i

/-- One further byte of zeros: the step from one slice table to the next. -/
def crcSliceStep (crc : ℕ) : ℕ := (crc >>> 8) ^^^ efCrc32Table (crc &&& 0xFF)

/-- Source: `ef_crc.c`, `ef_crc32_slice0` … `ef_crc32_slice3` -/
def efCrc32Slice (k i : ℕ) : ℕ := crcSliceStep^[k] (efCrc32Table i)

/-- The four-byte round of slicing-by-4, on a register that already holds the next word. -/
def crcWordStep (crc : ℕ) : ℕ :=
  efCrc32Slice 0 ((crc >>> 24) &&& 0xFF) ^^^ efCrc32Slice 1 ((crc >>> 16) &&& 0xFF) ^^^
    efCrc32Slice 2 ((crc >>> 8) &&& 0xFF) ^^^ efCrc32Slice 3 (crc &&& 0xFF)

/-- The byte loop for the last bytes of a buffer. -/
def crcTail (crc : ℕ) : List UInt8 → ℕ
  | [] => crc
  | b :: bs => crcTail ((crc >>> 8) ^^^ efCrc32Table ((crc ^^^ b.toNat) &&& 0xFF)) bs

/-- Source: `ef_crc.c`, `ef_crc32_update_slice4` -/
def efCrc32UpdateSlice4 (crc : ℕ) : List UInt8 → ℕ
  | b₀ :: b₁ :: b₂ :: b₃ :: bs =>
      efCrc32UpdateSlice4 (crcWordStep (crc ^^^
        (b₀.toNat + 256 * (b₁.toNat + 256 * (b₂.toNat + 256 * b₃.toNat))))) bs
  | bs => crcTail crc bs

/-- Source: `ef_crc.c`, `ef_crc32_update` -/
def efCrc32Update (crc : ℕ) (bs : List UInt8) : ℕ := efCrc32UpdateSlice4 crc bs

/-! ## The checksums of the mapped structures -/

/-- The superblock checksum, taken with the checksum field itself as zero.
Source: `endfields.c`, `ef_sb_checksum_compute` -/
def efSbChecksumCompute (m : Mem) : ℕ :=
  let crc := efCrc32Update 0xFFFFFFFF (readBytes m 0 36)
  let crc := efCrc32Update crc [0, 0, 0, 0]
  let crc := efCrc32Update crc (readBytes m 40 24)
  crc ^^^ 0xFFFFFFFF

/-- The checksum over id, status, payload and link.
Source: `endfields.c`, `ef_slot_header_crc_compute_full` -/
def efSlotHeaderCrcComputeFull (slotId : ℕ) (slot : Slot) : ℕ :=
  let crc := efCrc32Update 0xFFFFFFFF (leBytes 8 slotId)
  let crc := efCrc32Update crc (leBytes 4 slot.status)
  let crc := efCrc32Update crc slot.payload
  let crc := efCrc32Update crc (leBytes 8 slot.nextOffset)
  crc ^^^ 0xFFFFFFFF

/-- The checksum of queue nodes, which leaves the payload out.
Source: `endfields.c`, `ef_slot_header_crc_compute_link` -/
def efSlotHeaderCrcComputeLink (slotId : ℕ) (slot : Slot) : ℕ :=
  let crc := efCrc32Update 0xFFFFFFFF (leBytes 8 slotId)
  let crc := efCrc32Update crc (leBytes 4 slot.status)
  let crc := efCrc32Update crc (leBytes 8 slot.nextOffset)
  crc ^^^ 0xFFFFFFFF

/-- Source: `endfields.c`, `ef_slot_status_uses_link_crc` -/
def efSlotStatusUsesLinkCrc (status : ℕ) : Bool :=
  status = statusQueued ∨ status = statusQueueDummy ∨ status = statusQueueLink ∨
    status = statusQueueDeq

/-- Source: `endfields.c`, `ef_slot_status_has_crc` -/
def efSlotStatusHasCrc (status : ℕ) : Bool :=
  status = statusUsed ∨ status = statusOverflow ∨ status = statusQueued ∨
    status = statusQueueDummy ∨ status = statusQueueLink ∨ status = statusQueueDeq

/-- Source: `endfields.c`, `ef_slot_header_crc_compute` -/
def efSlotHeaderCrcCompute (slotId : ℕ) (slot : Slot) : ℕ :=
  if efSlotStatusUsesLinkCrc slot.status then efSlotHeaderCrcComputeLink slotId slot
  else efSlotHeaderCrcComputeFull slotId slot

/-- Source: `ef_undo.c`, `ef_undo_header_crc_compute` -/
def efUndoHeaderCrcCompute (h : UndoHeader) : ℕ :=
  let crc := efCrc32Update 0xFFFFFFFF (leBytes 4 h.magic)
  let crc := efCrc32Update crc [0, 0, 0, 0]
  let crc := efCrc32Update crc (leBytes 8 h.tail)
  let crc := efCrc32Update crc (leBytes 4 h.recordCount)
  let crc := efCrc32Update crc (leBytes 4 h.reserved)
  let crc := efCrc32Update crc h.pad
  crc ^^^ 0xFFFFFFFF

/-- Source: `ef_undo.c`, `ef_undo_header_valid` -/
def efUndoHeaderValid (h : UndoHeader) : Bool :=
  h.magic = undoHeaderMagic ∧ h.crc ≠ 0 ∧ h.crc = efUndoHeaderCrcCompute h

end Endfields.Model
