import Endfields.Spec.View

/-!
# The slot primitives on the view

What the functions of `Endfields.Model.Slots` do on a handle that is bound to a geometry: offsets
and slot ids correspond (`efOffsetToSlotId_eq_ok_iff`), every accepted access hits the slot it names
(`efPeekSlot_of_lt`), and each list operation is an explicit change of the view
(`efFreeListPopAtomic_spec`, `efFreeListPushAtomic_spec`).
-/

namespace Endfields.Model

open Endfields.Lib

/-! ### Checksums fit their field -/

/-- A division step stays in 32 bits. -/
lemma crcBitStep_lt {c : ℕ} (h : c < 2 ^ 32) : crcBitStep c < 2 ^ 32 := by
  have hs : c >>> 1 < 2 ^ 32 := lt_of_le_of_lt (Nat.shiftRight_le c 1) h
  unfold crcBitStep
  split_ifs
  · exact Nat.xor_lt_two_pow hs (by norm_num)
  · exact hs

/-- The entries of the table are words of 32 bits.
Source: `ef_crc.c`, `ef_crc32_init_tables` -/
lemma efCrc32Table_lt {i : ℕ} (h : i < 2 ^ 32) : efCrc32Table i < 2 ^ 32 := by
  unfold efCrc32Table
  have hiter : ∀ k c, c < 2 ^ 32 → crcBitStep^[k] c < 2 ^ 32 := by
    intro k
    induction k with
    | zero => intro c hc; exact hc
    | succ k ih => intro c hc; exact ih _ (crcBitStep_lt hc)
  exact hiter 8 i h

/-- A byte of a word. -/
lemma and_byte_lt (x : ℕ) : x &&& 0xFF < 2 ^ 32 :=
  lt_of_le_of_lt Nat.and_le_right (by norm_num)

/-- The entries of the further tables are words of 32 bits.
Source: `ef_crc.c`, `ef_crc32_init_tables` -/
lemma efCrc32Slice_lt (k : ℕ) {i : ℕ} (h : i < 2 ^ 32) : efCrc32Slice k i < 2 ^ 32 := by
  have hstep : ∀ c, c < 2 ^ 32 → crcSliceStep c < 2 ^ 32 := by
    intro c hc
    exact Nat.xor_lt_two_pow (lt_of_le_of_lt (Nat.shiftRight_le c 8) hc)
      (efCrc32Table_lt (and_byte_lt c))
  have hiter : ∀ k c, c < 2 ^ 32 → crcSliceStep^[k] c < 2 ^ 32 := by
    intro k
    induction k with
    | zero => intro c hc; exact hc
    | succ k ih => intro c hc; exact ih _ (hstep c hc)
  exact hiter k _ (efCrc32Table_lt h)

/-- Four bytes at once stay in 32 bits. -/
lemma crcWordStep_lt (c : ℕ) : crcWordStep c < 2 ^ 32 := by
  unfold crcWordStep
  have h : ∀ k x, efCrc32Slice k (x &&& 0xFF) < 2 ^ 32 :=
    fun k x => efCrc32Slice_lt k (and_byte_lt x)
  exact Nat.xor_lt_two_pow (Nat.xor_lt_two_pow (Nat.xor_lt_two_pow (h _ _) (h _ _)) (h _ _)) (h _ _)

/-- The bytes behind the last word stay in 32 bits. -/
lemma crcTail_lt {c : ℕ} (h : c < 2 ^ 32) (bs : List UInt8) : crcTail c bs < 2 ^ 32 := by
  induction bs generalizing c with
  | nil => exact h
  | cons b bs ih =>
      refine ih (Nat.xor_lt_two_pow (lt_of_le_of_lt (Nat.shiftRight_le c 8) h) ?_)
      exact efCrc32Table_lt (and_byte_lt _)

/-- A checksum is a word of 32 bits.
Source: `ef_crc.c`, `ef_crc32_update` -/
lemma efCrc32Update_lt {c : ℕ} (h : c < 2 ^ 32) (bs : List UInt8) :
    efCrc32Update c bs < 2 ^ 32 := by
  unfold efCrc32Update
  fun_induction efCrc32UpdateSlice4 c bs with
  | case1 c b₀ b₁ b₂ b₃ bs ih => exact ih (crcWordStep_lt _)
  | case2 c bs _ => exact crcTail_lt h bs

/-- A slot checksum fits its 32-bit field. -/
lemma efSlotHeaderCrcCompute_lt (id : ℕ) (s : Slot) : efSlotHeaderCrcCompute id s < u32 := by
  have h0 : (0xFFFFFFFF : ℕ) < 2 ^ 32 := by norm_num
  unfold efSlotHeaderCrcCompute efSlotHeaderCrcComputeLink efSlotHeaderCrcComputeFull
  split_ifs
  · exact Nat.xor_lt_two_pow (efCrc32Update_lt (efCrc32Update_lt (efCrc32Update_lt h0 _) _) _) h0
  · exact Nat.xor_lt_two_pow
      (efCrc32Update_lt (efCrc32Update_lt (efCrc32Update_lt (efCrc32Update_lt h0 _) _) _) _) h0

/-- The slot with its header checksum brought up to date, where checksums are kept. -/
def Slot.sealed (crcOn : Bool) (id : ℕ) (s : Slot) : Slot :=
  if crcOn then { s with headerCrc := efSlotHeaderCrcCompute id s } else s

/-- The check of a slot's header checksum.
Source: `endfields.c`, `ef_slot_header_crc_valid` -/
def Slot.crcValid (crcOn : Bool) (id : ℕ) (s : Slot) : Bool :=
  if crcOn = false then true
  else if efSlotStatusHasCrc s.status = false then true
  else if s.headerCrc = 0 then false
  else if s.headerCrc = efSlotHeaderCrcCompute id s then true
  else efSlotStatusUsesLinkCrc s.status ∧ s.headerCrc = efSlotHeaderCrcComputeFull id s

namespace Slot

variable (crcOn : Bool) (id : ℕ) (s : Slot)

/-- A new checksum leaves the status alone. -/
@[simp] lemma sealed_status : (s.sealed crcOn id).status = s.status := by
  unfold sealed; split_ifs <;> rfl

/-- A new checksum leaves the payload alone. -/
@[simp] lemma sealed_payload : (s.sealed crcOn id).payload = s.payload := by
  unfold sealed; split_ifs <;> rfl

/-- A new checksum leaves the link alone. -/
@[simp] lemma sealed_nextOffset : (s.sealed crcOn id).nextOffset = s.nextOffset := by
  unfold sealed; split_ifs <;> rfl

/-- Only a slot whose status has a checksum can fail the check. -/
lemma hasCrc_of_not_crcValid {crcOn : Bool} {id : ℕ} {s : Slot} (h : ¬ s.crcValid crcOn id = true) :
    efSlotStatusHasCrc s.status = true := by
  unfold crcValid at h
  split_ifs at h with h1 h2 h3 h4 <;> simp_all

variable {crcOn : Bool} {id : ℕ} {s t : Slot}

/-- The checksum is one of status, payload and link. -/
lemma compute_congr (hstatus : s.status = t.status) (hpayload : s.payload = t.payload)
    (hnext : s.nextOffset = t.nextOffset) :
    efSlotHeaderCrcCompute id s = efSlotHeaderCrcCompute id t := by
  unfold efSlotHeaderCrcCompute efSlotHeaderCrcComputeLink efSlotHeaderCrcComputeFull
  rw [hstatus, hpayload, hnext]

/-- A slot that carries the checksum computed for it is refused exactly if this is zero, which
counts as missing. -/
lemma crcValid_eq_false_iff
    (h : efSlotStatusHasCrc s.status = true → s.headerCrc = efSlotHeaderCrcCompute id s) :
    s.crcValid true id = false ↔
      efSlotStatusHasCrc s.status = true ∧ efSlotHeaderCrcCompute id s = 0 := by
  unfold crcValid
  by_cases hhas : efSlotStatusHasCrc s.status = true
  · rw [← h hhas]
    by_cases h0 : s.headerCrc = 0
    · simp [hhas, h0]
    · simp [hhas, h0]
  · simp [hhas]

/-- A checksum that is brought up to date. -/
lemma crcValid_sealed_eq_false_iff : (s.sealed true id).crcValid true id = false ↔
    efSlotStatusHasCrc s.status = true ∧ efSlotHeaderCrcCompute id s = 0 := by
  have hcomp : efSlotHeaderCrcCompute id (s.sealed true id) = efSlotHeaderCrcCompute id s :=
    compute_congr (sealed_status ..) (sealed_payload ..) (sealed_nextOffset ..)
  rw [crcValid_eq_false_iff fun _ => hcomp.symm, sealed_status, hcomp]

/-- A checksum that is brought up to date is right, unless it is zero. -/
lemma crcValid_sealed
    (h : crcOn = true → efSlotStatusHasCrc s.status = true → efSlotHeaderCrcCompute id s ≠ 0) :
    (s.sealed crcOn id).crcValid crcOn id = true := by
  cases crcOn with
  | false => rfl
  | true =>
      rw [← Bool.not_eq_false, crcValid_sealed_eq_false_iff]
      exact fun ⟨hhas, h0⟩ => h rfl hhas h0

end Slot

namespace Db

variable {g : Geometry} {db : Db} {i p : ℕ}

/-! ### Addresses -/

/-- The handle's slots begin where the geometry has them. -/
lemma slotsBase_eq_base (h : (db.view g).core.hashCapacity = g.cap) : db.slotsBase = g.base := by
  have hcap : db.hashCapacity = g.cap := h
  rw [db.slotsBase_eq, hcap, Geometry.base]
  omega

/-- The handle's slots lie where the geometry has them. -/
lemma slotPtr_eq (h : (db.view g).core.hashCapacity = g.cap) (i : ℕ) :
    db.slotPtr i = g.ptr i := by
  rw [slotPtr, slotsBase_eq_base h, Geometry.ptr]

/-- The last error does not matter to a slot. -/
lemma slot_setError (db : Db) (err : Err) (i : ℕ) : (db.setError err).slot i = db.slot i := rfl

/-- The slot with an id is that of the view. -/
lemma slot_eq (h : (db.view g).core.hashCapacity = g.cap) (hi : i < g.n) :
    db.slot i = (db.view g).slots i := by
  rw [slot, slotPtr_eq h, slotAt_eq db hi]

/-- The offset of a slot is its address.
Source: `endfields.c`, `ef_slot_to_offset` -/
lemma efSlotToOffset_of_lt (h : (db.view g).Bound g) (hi : i < g.n) :
    db.efSlotToOffset i = g.ptr i := by
  have hmax : db.sb.maxSlots = g.n := h.maxSlots
  have hsize := g.size_lt
  have hp := g.ptr_lt hi
  unfold efSlotToOffset
  rw [if_neg (by omega), slotsBase_eq_base h.cap]
  exact Nat.mod_eq_of_lt (by unfold Geometry.size at hsize; unfold Geometry.ptr at hp; omega)

/-- Beyond the last slot the offset is `0`.
Source: `endfields.c`, `ef_slot_to_offset` -/
lemma efSlotToOffset_of_ge (h : (db.view g).Bound g) (hi : g.n ≤ i) : db.efSlotToOffset i = 0 := by
  have hmax : db.sb.maxSlots = g.n := h.maxSlots
  exact if_pos (by omega)

/-- Offsets of slots are translated to ids as the geometry does it. -/
lemma efOffsetToSlotId_toOption (h : (db.view g).Bound g) (off : ℕ) :
    (db.efOffsetToSlotId off).toOption = g.idOf off := by
  have hmax : db.sb.maxSlots = g.n := h.maxSlots
  unfold efOffsetToSlotId Geometry.idOf
  rw [slotsBase_eq_base h.cap, hmax]
  split_ifs <;> first | rfl | omega

/-- The offsets that have a slot id are the addresses of slots.
Source: `endfields.c`, `ef_offset_to_slot_id` -/
lemma efOffsetToSlotId_eq_ok_iff (h : (db.view g).Bound g) (off i : ℕ) :
    db.efOffsetToSlotId off = .ok i ↔ i < g.n ∧ off = g.ptr i := by
  rw [← g.idOf_eq_some_iff, ← efOffsetToSlotId_toOption h]
  rcases db.efOffsetToSlotId off with e | j
  · simp [Except.toOption]
  · simp [Except.toOption]

/-- The address of a slot has its id.
Source: `endfields.c`, `ef_offset_to_slot_id` -/
lemma efOffsetToSlotId_ptr (h : (db.view g).Bound g) (hi : i < g.n) :
    db.efOffsetToSlotId (g.ptr i) = .ok i :=
  (efOffsetToSlotId_eq_ok_iff h _ _).mpr ⟨hi, rfl⟩

/-- The slot at an offset, for the queue.
Source: `endfields.c`, `ef_slot_at_offset` -/
lemma efSlotAtOffset_eq (h : (db.view g).Bound g) (off : ℕ) : db.efSlotAtOffset off = g.idOf off := by
  have hmax : db.sb.maxSlots = g.n := h.maxSlots
  have hfile : g.undoBase ≤ db.fileSize := h.inFile
  unfold Geometry.undoBase at hfile
  unfold efSlotAtOffset Geometry.idOf
  rw [slotsBase_eq_base h.cap, hmax]
  split_ifs <;> first | rfl | omega

/-! ### Slot access -/

/-- A slot is looked at without a check of its checksum.
Source: `endfields.c`, `ef_peek_slot` -/
lemma efPeekSlot_of_lt (h : (db.view g).Bound g) (hi : i < g.n) :
    db.efPeekSlot i = (some (g.ptr i), db.setError .ok) := by
  have hmax : db.sb.maxSlots = g.n := h.maxSlots
  unfold efPeekSlot
  rw [if_neg (by omega), slotPtr_eq h.cap]

/-- Beyond the last slot there is nothing to look at.
Source: `endfields.c`, `ef_peek_slot` -/
lemma efPeekSlot_of_ge (h : (db.view g).Bound g) (hi : g.n ≤ i) :
    db.efPeekSlot i = (none, db.setError .slotId) := by
  have hmax : db.sb.maxSlots = g.n := h.maxSlots
  exact if_pos (by omega)

/-- A v5 image does not have the payload of the first layout. -/
lemma legacyPayload_eq_false (h : (db.view g).sb.schemaVersion = schemaVersion) :
    db.legacyPayload = false := by
  have hs : db.sb.schemaVersion = schemaVersion := h
  unfold legacyPayload
  rw [hs]
  decide

/-- A payload of a v5 image has 48 bytes.
Source: `endfields.c`, `ef_payload_capacity` -/
lemma efPayloadCapacity_eq (h : (db.view g).sb.schemaVersion = schemaVersion) :
    db.efPayloadCapacity = 48 := by
  unfold efPayloadCapacity
  rw [legacyPayload_eq_false h]
  rfl

/-- A payload of a v5 image begins behind the header.
Source: `endfields.c`, `ef_slot_payload_ptr` -/
lemma efSlotPayloadPtr_eq (h : (db.view g).sb.schemaVersion = schemaVersion) (p : ℕ) :
    db.efSlotPayloadPtr p = p + 8 := by
  unfold efSlotPayloadPtr
  rw [legacyPayload_eq_false h]
  rfl

/-- A writable handle passes the check.
Source: `endfields.c`, `ef_db_require_write` -/
lemma efDbRequireWrite_eq (h : (db.view g).core.readonly = false) :
    db.efDbRequireWrite = (.ok, db) := by
  have hw : db.readonly = false := h
  unfold efDbRequireWrite
  rw [hw]
  rfl

/-- A slot gets its checksum, or `0` without the flag.
Source: `endfields.c`, `ef_slot_header_crc_store` -/
lemma view_efSlotHeaderCrcStore (hi : i < g.n) (id : ℕ) :
    (db.efSlotHeaderCrcStore id (g.ptr i)).view g =
      (db.view g).setSlot i (((db.view g).slots i).sealed (db.view g).sb.slotCrc id) := by
  unfold efSlotHeaderCrcStore Slot.sealed
  rw [sb_eq g]
  split_ifs with hcrc
  · rw [view_setHeaderCrc hi, slotAt_eq db hi, Nat.mod_eq_of_lt (efSlotHeaderCrcCompute_lt id _)]
  · simp

/-- A slot is handed out if its checksum is accepted.
Source: `endfields.c`, `ef_get_slot` -/
lemma efGetSlot_of_lt (h : (db.view g).Bound g) (hi : i < g.n) :
    db.efGetSlot i =
      if ((db.view g).slots i).crcValid (db.view g).sb.slotCrc i then
        (some (g.ptr i), db.setError .ok)
      else (none, (db.setError .ok).setError .badChecksum) := by
  have hslot : (db.setError .ok).slotAt (g.ptr i) = (db.view g).slots i := slotAt_eq db hi
  unfold efGetSlot
  rw [efPeekSlot_of_lt h hi]
  simp only [hslot]
  have hvalid : (db.setError .ok).efSlotHeaderCrcValid i ((db.view g).slots i) =
      ((db.view g).slots i).crcValid (db.view g).sb.slotCrc i := rfl
  rw [hvalid]
  by_cases hc : ((db.view g).slots i).crcValid (db.view g).sb.slotCrc i = true
  · rw [if_neg (by simp [hc]), if_pos hc]
  · rw [if_pos ⟨Slot.hasCrc_of_not_crcValid hc, by simpa using hc⟩, if_neg hc]

/-- A slot is refused exactly if its checksum is.
Source: `endfields.c`, `ef_get_slot` -/
lemma efGetSlot_eq_none_iff (h : (db.view g).Bound g) (hi : i < g.n) : (db.efGetSlot i).1 = none ↔
    ((db.view g).slots i).crcValid (db.view g).sb.slotCrc i = false := by
  rw [efGetSlot_of_lt h hi]
  by_cases hc : ((db.view g).slots i).crcValid (db.view g).sb.slotCrc i = true
  · rw [if_pos hc, hc]
    exact iff_of_false (by simp) (by simp)
  · rw [if_neg hc]
    exact iff_of_true rfl (Bool.not_eq_true _ ▸ hc)

/-- Beyond the last slot nothing is handed out.
Source: `endfields.c`, `ef_get_slot` -/
lemma efGetSlot_of_ge (h : (db.view g).Bound g) (hi : g.n ≤ i) :
    db.efGetSlot i = (none, db.setError .slotId) := by
  unfold efGetSlot
  rw [efPeekSlot_of_ge h hi]

end Db

/-! ### The free list -/

/-- The words of a slot are in the range of their fields. -/
lemma Slot.read_nextOffset_lt (m : Mem) (p : ℕ) : (Slot.read m p).nextOffset < u64 :=
  load_lt m (p + 56) 8

/-- A status is a word of 32 bits. -/
lemma Slot.read_status_lt (m : Mem) (p : ℕ) : (Slot.read m p).status < u32 := load_lt m p 4

/-- A stored checksum is a word of 32 bits. -/
lemma Slot.read_headerCrc_lt (m : Mem) (p : ℕ) : (Slot.read m p).headerCrc < u32 :=
  load_lt m (p + 4) 4

/-- The head of the free list is not a flag. -/
@[simp] lemma Superblock.slotCrc_setFreeListHead (sb : Superblock) (v : ℕ) :
    (sb.setFreeListHead v).slotCrc = sb.slotCrc := rfl

/-- The free count is not a flag. -/
@[simp] lemma Superblock.slotCrc_setFreeCount (sb : Superblock) (v : ℕ) :
    (sb.setFreeCount v).slotCrc = sb.slotCrc := rfl

namespace View

/-- The slot at the head of the free list, if the free count admits taking it. -/
def freeHead (g : Geometry) (v : View) : Option ℕ :=
  if v.sb.freeCount = 0 then none else g.idOf v.sb.freeListHead

/-- The head of the free list is a slot. -/
lemma freeHead_lt {g : Geometry} {v : View} {i : ℕ} (h : v.freeHead g = some i) : i < g.n := by
  unfold freeHead at h
  split_ifs at h
  exact ((g.idOf_eq_some_iff _ _).mp h).1

/-- Slot `i` as an allocation leaves it. -/
def allocated (v : View) (clearPayload : Bool) (i : ℕ) : Slot :=
  Slot.sealed v.sb.slotCrc i
    { status := statusUsed
      headerCrc := (v.slots i).headerCrc
      payload := if clearPayload then List.replicate 48 0 else (v.slots i).payload
      nextOffset := 0 }

/-- Take slot `i`, the head of the free list. -/
def popSlot (v : View) (clearPayload : Bool) (i : ℕ) : View :=
  (v.setSb ((v.sb.setFreeListHead (v.slots i).nextOffset).setFreeCount
    (v.sb.freeCount - 1))).setSlot i (v.allocated clearPayload i)

/-- Slot `i` as a release leaves it: blank, with the old head as its link. -/
def released (v : View) : Slot :=
  { status := statusFree
    headerCrc := 0
    payload := List.replicate 48 0
    nextOffset := v.sb.freeListHead }

/-- Put slot `i` on the free list. -/
def pushSlot (g : Geometry) (v : View) (i : ℕ) : View :=
  (v.setSb ((v.sb.setFreeListHead (g.ptr i)).setFreeCount
    ((v.sb.freeCount + 1) % u32))).setSlot i v.released

end View

namespace Db

variable {g : Geometry} {db : Db} {i p : ℕ}

/-- A link is a word of 64 bits. -/
lemma view_nextOffset_lt (db : Db) (hi : i < g.n) : ((db.view g).slots i).nextOffset < u64 := by
  rw [← slotAt_eq db hi]
  exact Slot.read_nextOffset_lt _ _

/-- A checksum is a word of 32 bits. -/
lemma view_headerCrc_lt (db : Db) (hi : i < g.n) : ((db.view g).slots i).headerCrc < u32 := by
  rw [← slotAt_eq db hi]
  exact Slot.read_headerCrc_lt _ _

/-- A status is a word of 32 bits. -/
lemma view_status_lt (db : Db) (hi : i < g.n) : ((db.view g).slots i).status < u32 := by
  rw [← slotAt_eq db hi]
  exact Slot.read_status_lt _ _

/-- A payload has 48 bytes. -/
lemma view_length_payload (db : Db) (hi : i < g.n) : ((db.view g).slots i).payload.length = 48 := by
  rw [← slotAt_eq db hi]
  exact Slot.length_payload_read _ _

/-- The free count is a word of 32 bits. -/
lemma freeCount_lt (g : Geometry) (db : Db) : (db.view g).sb.freeCount < u32 := load_lt db.mem 32 4

/-- The head of the free list is a word of 64 bits. -/
lemma freeListHead_lt (g : Geometry) (db : Db) : (db.view g).sb.freeListHead < u64 :=
    load_lt db.mem 16 8

/-- A positive free count goes down.
Source: `endfields.c`, `ef_sb_free_count_dec` -/
lemma efSbFreeCountDec_view (h : (db.view g).sb.freeCount ≠ 0) :
    db.efSbFreeCountDec.view g =
      (db.view g).setSb ((db.view g).sb.setFreeCount ((db.view g).sb.freeCount - 1)) := by
  have hlt := freeCount_lt g db
  have hcount : (db.sb.freeCount + (u32 - 1)) % u32 % u32 = (db.view g).sb.freeCount - 1 := by
    rw [sb_eq g]
    simp only [u32] at *
    omega
  unfold efSbFreeCountDec
  rw [view_setFreeCount, hcount]

/-- The free count goes up, and wraps at its width.
Source: `endfields.c`, `ef_sb_free_count_inc` -/
lemma efSbFreeCountInc_view :
    db.efSbFreeCountInc.view g =
      (db.view g).setSb ((db.view g).sb.setFreeCount (((db.view g).sb.freeCount + 1) % u32)) := by
  unfold efSbFreeCountInc
  rw [view_setFreeCount, Nat.mod_mod, sb_eq g]

/-- **An allocation from a non-empty free list** takes its head. -/
lemma efFreeListPopAtomic_of_some (h : (db.view g).Bound g)
    (hs : (db.view g).sb.schemaVersion = schemaVersion) (clear : Bool)
    (hhead : (db.view g).freeHead g = some i) :
    ∃ db', db.efFreeListPopAtomic clear = (.ok, i, db') ∧
      db'.view g = (db.view g).popSlot clear i := by
  unfold View.freeHead at hhead
  split_ifs at hhead with hcount
  obtain ⟨hi, hptr⟩ := (g.idOf_eq_some_iff _ _).mp hhead
  have hptr' : db.sb.freeListHead = g.ptr i := hptr
  have hcount' : db.sb.freeCount ≠ 0 := hcount
  have hfile : g.undoBase ≤ db.fileSize := h.inFile
  have hz := g.ptr_ne_zero i
  have hlt := g.ptr_lt hi
  have hoff : db.efOffsetToPtr (g.ptr i) = (some (g.ptr i), db.setError .ok) := by
    unfold efOffsetToPtr
    rw [if_neg (by omega)]
  have hok' : ((db.setError .ok).view g).Bound g := h
  have hnext := view_nextOffset_lt db hi
  unfold efFreeListPopAtomic
  simp only [hptr']
  rw [if_neg (by simp [hz, hcount']), hoff]
  simp only
  rw [efOffsetToSlotId_ptr hok' hi]
  refine ⟨_, rfl, ?_⟩
  have hnext' : ((db.setError .ok).slotAt (g.ptr i)).nextOffset % u64 =
      ((db.view g).slots i).nextOffset := by
    rw [slotAt_eq _ hi]
    exact Nat.mod_eq_of_lt hnext
  cases clear with
  | false =>
      simp only [view_setError, view_efDbMarkMetaDirty, view_efSlotHeaderCrcStore hi,
        Bool.false_eq_true, if_false]
      rw [efSbFreeCountDec_view (by simpa [view_setStatus hi, view_setNext hi] using hcount)]
      simp [view_setStatus hi, view_setNext hi, View.popSlot, View.allocated, hnext']
  | true =>
      have hv : ∀ x, (((((db.setError .ok).setFreeListHead x).setNext (g.ptr i) 0).setStatus
          (g.ptr i) statusUsed).view g).sb.schemaVersion = schemaVersion := by
        intro x
        simpa [view_setStatus hi, view_setNext hi] using hs
      simp only [view_setError, view_efDbMarkMetaDirty, view_efSlotHeaderCrcStore hi, if_true,
        efSlotPayloadPtr_eq (hv _), efPayloadCapacity_eq (hv _)]
      rw [efSbFreeCountDec_view (by
        simpa [view_zero_payload hi, view_setStatus hi, view_setNext hi] using hcount)]
      simp [view_zero_payload hi, view_setStatus hi, view_setNext hi, View.popSlot, View.allocated,
        hnext']

/-- **An allocation that finds no slot** changes nothing in the view. -/
lemma efFreeListPopAtomic_of_none (h : (db.view g).Bound g) (clear : Bool)
    (hhead : (db.view g).freeHead g = none) :
    (db.efFreeListPopAtomic clear).1 ≠ .ok ∧
      (db.efFreeListPopAtomic clear).2.2.view g = db.view g := by
  unfold efFreeListPopAtomic
  by_cases hfull : db.sb.freeListHead = 0 ∨ db.sb.freeCount = 0
  · simp only [hfull, if_true]
    exact ⟨by decide, rfl⟩
  · simp only [hfull, if_false]
    have hcount : (db.view g).sb.freeCount ≠ 0 := fun h0 => hfull (.inr h0)
    unfold View.freeHead at hhead
    rw [if_neg hcount] at hhead
    by_cases hsize : db.fileSize ≤ db.sb.freeListHead
    · have hoff : db.efOffsetToPtr db.sb.freeListHead = (none, db.setError .offset) := by
        unfold efOffsetToPtr
        rw [if_pos (.inr hsize)]
      rw [hoff]
      exact ⟨fun h0 => (by cases h0), rfl⟩
    · have hoff : db.efOffsetToPtr db.sb.freeListHead =
          (some db.sb.freeListHead, db.setError .ok) := by
        unfold efOffsetToPtr
        rw [if_neg (by tauto)]
      rw [hoff]
      simp only
      have hok' : ((db.setError .ok).view g).Bound g := h
      rcases hid : (db.setError .ok).efOffsetToSlotId db.sb.freeListHead with e | j
      · refine ⟨fun h0 => ?_, rfl⟩
        have he : e ≠ .ok := by
          unfold efOffsetToSlotId at hid
          split_ifs at hid <;> cases hid <;> decide
        exact he h0
      · obtain ⟨hj, hp⟩ := (efOffsetToSlotId_eq_ok_iff hok' _ _).mp hid
        exact absurd hp ((g.idOf_eq_none_iff _).mp hhead j hj)

/-- The payload of a slot whose checksum is cleared is blanked alike in both slot layouts. -/
lemma view_blank (hi : i < g.n) :
    ((db.setHeaderCrc (g.ptr i) 0).zero ((db.setHeaderCrc (g.ptr i) 0).efSlotPayloadPtr (g.ptr i))
        (db.setHeaderCrc (g.ptr i) 0).efPayloadCapacity).view g =
      (db.view g).setSlot i { (db.view g).slots i with
        headerCrc := 0, payload := List.replicate 48 0 } := by
  unfold efSlotPayloadPtr efPayloadCapacity
  split_ifs
  · rw [view_zero_legacy hi, view_setHeaderCrc hi]
    simp
  · rw [view_zero_payload hi, view_setHeaderCrc hi]
    simp

/-- **A release** puts the slot at the head of the free list, blank. -/
lemma efFreeListPushAtomic_spec (h : (db.view g).Bound g) (hi : i < g.n) :
    ∃ db', db.efFreeListPushAtomic i (g.ptr i) = (.ok, db') ∧
      db'.view g = (db.view g).pushSlot g i := by
  have hoff := efSlotToOffset_of_lt h hi
  have hhead : (db.view g).sb.freeListHead % u64 = (db.view g).sb.freeListHead :=
    Nat.mod_eq_of_lt (freeListHead_lt g db)
  have hptr : g.ptr i % u64 = g.ptr i := Nat.mod_eq_of_lt (g.ptr_lt_u64 hi)
  refine ⟨_, rfl, ?_⟩
  simp only [view_setError, view_efDbMarkMetaDirty, efSbFreeCountInc_view, hoff]
  simp [sb_eq g, view_blank hi, view_setStatus hi, view_setNext hi, View.pushSlot, View.released,
    hhead, hptr]

end Db

end Endfields.Model
