import Endfields.Reopen.Stages
import Endfields.Resize.Free
import Endfields.Spec.Rebuild

/-!
# What bulk checksums do to corrupted slots

A writable open and a rehash compute the checksums of all slots again, whatever the stored ones say.

* `imageSlot`, `Db.foundSlot`: a slot of an image, and what the recovery of a transaction that was
  left active makes of it.
* `ZeroCrc i s`: the computed checksum of the slot is zero, the value that counts as missing.
* **`Db.corruption_kept_iff`**: a slot whose checksum is wrong is still refused after a writable
  open, and after a rehash, exactly if the checksum computed anew is zero, or the rehash has nothing
  to do.
-/

namespace Endfields.Model

open Endfields.Lib

/-- The slot of an image. -/
def imageSlot (m : Mem) (i : ℕ) : Slot := Slot.read m (64 + efHashCapacityFromSb m * 16 + 64 * i)

/-- The slot has a checksum, and the one that is computed for it is zero. -/
def ZeroCrc (i : ℕ) (s : Slot) : Prop :=
  efSlotStatusHasCrc s.status = true ∧ efSlotHeaderCrcCompute i s = 0

/-- A slot is refused only where checksums are kept. -/
lemma Slot.crcOn_of_refused {crcOn : Bool} {id : ℕ} {s : Slot} (h : s.crcValid crcOn id = false) :
    crcOn = true := by
  by_contra hoff
  unfold crcValid at h
  rw [if_pos (by simpa using hoff)] at h
  cases h

namespace Db

/-- The slot of a v5 image, after the recovery of a transaction that was left active.
Source: `ef_txn.c`, `ef_txn_recover_from_stale_lock` -/
def foundSlot (m : Mem) (mapCapacity : ℕ) (backend : Backend) (env : Env) (i : ℕ) : Slot :=
  (fresh m (v5Size m) mapCapacity backend env).efTxnRecoverFromStaleLock.2.slot i

/-- The slot as a rehash leaves it, but for the checksum: its link is shifted with the slot region.
Source: `ef_index.c`, `ef_index_fixup_all_offsets` -/
def movedSlot (db : Db) (newCapacity i : ℕ) : Slot :=
  { db.slot i with
    nextOffset := efIndexFixupOffset (db.slot i).nextOffset db.slotsBase
        (efIndexSlotsBase newCapacity) }

variable {g : Geometry} {db db' : Db} {m : Mem} {size i : ℕ}

/-! ### The open -/

/-- A call that keeps what is fixed keeps the flags. -/
lemma Keeps.slotCrc (h : Keeps db db') (hr : db.Rooted) : db'.sb.slotCrc = db.sb.slotCrc := by
  have hflags : db'.sb.flags = db.sb.flags :=
    load_congr fun x hx hx' => h.mem hr x (.inr (.inl ⟨by omega, by omega⟩))
  unfold Superblock.slotCrc
  rw [hflags]

/-- Recovery does not change the flags. -/
lemma slotCrc_recover (h : db.Opening) :
    db.efTxnRecoverFromStaleLock.2.sb.slotCrc = db.sb.slotCrc := by
  by_cases hactive : db.sb.txnState = txnStateActive
  · obtain ⟨err, db₂, hrefits, heq⟩ := efTxnRecoverFromStaleLock_eq h hactive
    have hkept := hrefits.toKeeps.slotCrc ⟨h.schema.ge, .inr h.base⟩
    have hflags : ((db₂.setTxnState txnStateNone).setTxnLock 0).sb.flags = db₂.sb.flags :=
      (load_store_of_disjoint (by omega)).trans (load_store_of_disjoint (by omega))
    rw [heq]
    refine Eq.trans ?_ hkept
    unfold Superblock.slotCrc
    exact congrArg (fun f : ℕ => f.testBit flagSlotCrcBit) hflags
  · rw [efTxnRecoverFromStaleLock_of_ne h hactive]

/-- A handle of the size of its layout has a geometry. -/
lemma Fitted.geometry (h : db.Fitted) (hw : db.readonly = false)
    (hfits : 64 * db.sb.maxSlots < 2 ^ 63) : ∃ g, (db.view g).Bound g := by
  have hcap : db.hashCapacity < 65536 := by
    rw [← h.cap]
    exact load_lt db.mem 56 2
  refine ⟨⟨db.hashCapacity, db.sb.maxSlots, ?_⟩, rfl, ?_, hw, rfl⟩
  · simp only [undoLogBytes, undoLogDefaultSlots, u64]
    omega
  · have hsize := h.size
    unfold efExpectedFileSize at hsize
    rw [Nat.mod_eq_of_lt (by simp only [undoLogDefaultSlots, u64]; omega)] at hsize
    show Geometry.undoBase _ ≤ db.fileSize
    simp only [Geometry.undoBase, Geometry.base]
    omega

/-- **The rebuild** refuses a slot afterwards exactly if its checksum comes out as zero. -/
lemma efGetSlot_efRebuildFreeList (h : (db.view g).Bound g) (hs : db.sb.schemaVersion ≠ 0)
    (hcrc : db.sb.slotCrc = true) (hi : i < g.n) :
    ((db.efRebuildFreeList.setError .ok).efGetSlot i).1 = none ↔ ZeroCrc i (db.slot i) := by
  have hrebuilt := efRebuildFreeList_spec h hs
  have hcrcv : (db.view g).sb.slotCrc = true := hcrc
  rw [slot_eq h.cap hi]
  generalize db.efRebuildFreeList = db₁ at hrebuilt ⊢
  obtain ⟨c, hsb⟩ := hrebuilt.sb
  have hb₁ : ((db₁.setError .ok).view g).Bound g := by
    rw [view_setError]
    refine h.congr ?_ ?_ ?_ ?_
    · rw [hrebuilt.core]
    · rw [hrebuilt.core]
    · rw [hrebuilt.core]
    · rw [hsb]
      rfl
  have hcrc₁ : (db₁.view g).sb.slotCrc = true := by
    rw [hsb]
    unfold Superblock.slotCrc at hcrcv ⊢
    rw [Superblock.setChecksum_flags, Superblock.setFreeCount_flags, Superblock.setFreeListHead_flags]
    exact hcrcv
  rw [efGetSlot_eq_none_iff hb₁ hi, view_setError, hcrc₁]
  unfold ZeroCrc
  by_cases hst : ((db.view g).slots i).status = statusFree
  · -- a free slot has no checksum, before and after
    have hno : efSlotStatusHasCrc statusFree = false := by decide
    have hst₁ := (hrebuilt.status hi).trans hst
    rw [hst, hno]
    refine iff_of_false (fun hfalse => ?_) (by simp)
    have hhas := Slot.hasCrc_of_not_crcValid (Bool.not_eq_true _ ▸ hfalse)
    rw [hst₁, hno] at hhas
    cases hhas
  · rw [hrebuilt.live i hi hst, hcrcv]
    split_ifs with hhas
    · exact Slot.crcValid_sealed_eq_false_iff
    · exact Slot.crcValid_eq_false_iff fun hhas' => absurd hhas' hhas

/-- What an open of a v5 image finds. -/
lemma efGetSlot_opened {C : ℕ} {b : Backend} {env : Env} (h : Image m size) (hsize : size < 2 ^ 63)
    (hcrc : (Superblock.read m).slotCrc = true) (hi : i < (Superblock.read m).maxSlots)
    (hroom : b = .memory → v5Size m ≤ C) :
    ((((fresh m (v5Size m) C b env).efTxnRecoverFromStaleLock.2.efRebuildFreeList).setError
      .ok).efGetSlot i).1 = none ↔ ZeroCrc i (foundSlot m C b env i) := by
  have hfits := h.fits
  have hstored : (Superblock.read m).hashCap * 16 + (Superblock.read m).maxSlots * 64 < 2 ^ 63 := by
    omega
  obtain ⟨hopening, hfit⟩ : (fresh m (v5Size m) C b env).Opening ∧
      (fresh m (v5Size m) C b env).Fitted :=
    fitted_fresh h.schema (by unfold u64; omega) rfl hroom
  obtain ⟨hfit₁, hopening₁, hmax₁, -⟩ := fitted_recover hopening hfit
  have hcrc₁ := (slotCrc_recover hopening).trans hcrc
  have hmax : (fresh m (v5Size m) C b env).sb.maxSlots = (Superblock.read m).maxSlots := rfl
  unfold foundSlot
  generalize (fresh m (v5Size m) C b env).efTxnRecoverFromStaleLock.2 = db₁
      at hfit₁ hopening₁ hmax₁ hcrc₁ ⊢
  obtain ⟨g, hb⟩ := hfit₁.geometry hopening₁.writable (by omega)
  have hn : db₁.sb.maxSlots = g.n := hb.maxSlots
  exact efGetSlot_efRebuildFreeList hb (by rw [hopening₁.schema]; norm_num) hcrc₁ (by omega)

/-- Without an active transaction the image's own slot is found. -/
lemma foundSlot_of_ne {C : ℕ} {b : Backend} {env : Env} (h : Image m size)
    (hne : (Superblock.read m).txnState ≠ txnStateActive) :
    foundSlot m C b env i = imageSlot m i := by
  have hopening := opening_fresh h (v5Size m) C b env
  unfold foundSlot
  rw [efTxnRecoverFromStaleLock_of_ne hopening hne]
  rfl

/-! ### The rehash -/

/-- A rehash that succeeds is one of a writable handle. -/
lemma writable_of_efIndexRehash {newCapacity : ℕ} (hok : (db.efIndexRehash newCapacity).1 = .ok) :
    db.readonly = false := by
  by_contra hr
  unfold efIndexRehash efIndexRehashTo at hok
  rw [if_pos (by simpa using hr)] at hok
  cases hok

/-- A slot that is refused has its checksum checked. -/
lemma of_efSlotHeaderCrcValid {s : Slot} (hbad : db.efSlotHeaderCrcValid i s = false) :
    db.sb.slotCrc = true ∧ efSlotStatusHasCrc s.status = true ∧ s.crcValid db.sb.slotCrc i = false := by
  have hinvalid : s.crcValid db.sb.slotCrc i = false := hbad
  exact ⟨Slot.crcOn_of_refused hinvalid,
    Slot.hasCrc_of_not_crcValid (Bool.not_eq_true _ ▸ hinvalid), hinvalid⟩

/-- **The rehash** refuses the slot afterwards exactly if nothing is moved, or its checksum comes
out as zero. -/
lemma efGetSlot_efIndexRehash {newCapacity : ℕ} (hm : db.Mapped)
    (hs : db.sb.schemaVersion = schemaVersion) (hi : i < db.sb.maxSlots)
    (hbad : db.efSlotHeaderCrcValid i (db.slot i) = false)
    (hok : (db.efIndexRehash newCapacity).1 = .ok) :
    ((db.efIndexRehash newCapacity).2.efGetSlot i).1 = none ↔
      newCapacity ≤ db.hashCapacity ∨ efSlotHeaderCrcCompute i (db.movedSlot newCapacity i) = 0 := by
  obtain ⟨g, hb⟩ := hm.geometry (writable_of_efIndexRehash hok)
  have hn : db.sb.maxSlots = g.n := hb.maxSlots
  have hfile := hm.inFile
  have hbound := hm.bound
  obtain ⟨hcrc, hhas, hinvalid⟩ := of_efSlotHeaderCrcValid hbad
  unfold movedSlot
  rw [slot_eq hb.cap (by omega), slotsBase_eq_base hb.cap] at *
  have hcrcv : (db.view g).sb.slotCrc = true := hcrc
  rcases efIndexRehash_slots hb hs (by omega) hok with
    ⟨hle, hstill⟩ | ⟨hlt, g', hcap, hn', hb', hcrc', hmoved⟩
  · have hb₁ := hstill.bound hb
    generalize (db.efIndexRehash newCapacity).2 = db₁ at hstill hb₁ ⊢
    rw [efGetSlot_eq_none_iff hb₁ (by omega), hstill.slots, hstill.sb]
    exact iff_of_true hinvalid (.inl hle)
  · generalize (db.efIndexRehash newCapacity).2 = db₁ at hb' hcrc' hmoved ⊢
    have hbase : efIndexSlotsBase newCapacity = g'.base := by
      unfold efIndexSlotsBase Geometry.base
      omega
    have hcrc₁ : (db₁.view g').sb.slotCrc = true := hcrc'.trans hcrc
    have hhas₁ : efSlotStatusHasCrc ((db₁.view g').slots i).status = true := by
      rw [hmoved.status]
      exact hhas
    have hcomp : efSlotHeaderCrcCompute i ((db₁.view g').slots i) = efSlotHeaderCrcCompute i
        { (db.view g).slots i with
          nextOffset := efIndexFixupOffset ((db.view g).slots i).nextOffset g.base g'.base } := by
      rw [efIndexFixupOffset_eq]
      exact Slot.compute_congr (hmoved.status i) (hmoved.payload i) (hmoved.next i (by omega))
    rw [efGetSlot_eq_none_iff hb' (by omega), hcrc₁,
      Slot.crcValid_eq_false_iff fun _ => hmoved.crc hcrc i (by omega) hhas₁, hcomp, hbase]
    constructor
    · exact fun h => .inr h.2
    · rintro (hle | h0)
      · omega
      · exact ⟨hhas₁, h0⟩

/-- **Corruption after a bulk refresh.** A slot of a v5 image whose checksum is refused is still
refused after a writable open exactly if the checksum of the slot that the open finds is computed as
zero; this is the image's own slot unless a transaction was left active. A slot of a handle whose
checksum is refused is still refused after a successful rehash exactly if the rehash has nothing to
do, or the checksum of the moved slot is computed as zero. -/
theorem corruption_kept_iff (himage : Image m size) (hsize : size < 2 ^ 63) (hm : db.Mapped)
    (hs : db.sb.schemaVersion = schemaVersion) :
    (∀ i n cap env, i < (Superblock.read m).maxSlots →
      (imageSlot m i).crcValid (Superblock.read m).slotCrc i = false →
        ((efOpenMemoryHash m size n cap false env).1 = .ok →
          (((efOpenMemoryHash m size n cap false env).2.efGetSlot i).1 = none ↔
            ZeroCrc i (foundSlot m size .memory env i))) ∧
        ((efOpenExHash m size n cap env).1 = .ok →
          (((efOpenExHash m size n cap env).2.efGetSlot i).1 = none ↔
            ZeroCrc i (foundSlot m size .file env i))) ∧
        ((Superblock.read m).txnState ≠ txnStateActive →
          ∀ b, foundSlot m size b env i = imageSlot m i)) ∧
    ∀ i newCapacity, i < db.sb.maxSlots → db.efSlotHeaderCrcValid i (db.slot i) = false →
      (db.efIndexRehash newCapacity).1 = .ok →
        (((db.efIndexRehash newCapacity).2.efGetSlot i).1 = none ↔
          newCapacity ≤ db.hashCapacity ∨
            efSlotHeaderCrcCompute i (db.movedSlot newCapacity i) = 0) := by
  refine ⟨fun i n cap env hi hbad => ⟨fun hok => ?_, fun hok => ?_, fun hne b => ?_⟩,
    fun i newCapacity hi hbad hok => efGetSlot_efIndexRehash hm hs hi hbad hok⟩
  · have hcrc := Slot.crcOn_of_refused hbad
    have hfits := himage.fits
    obtain ⟨hle, -, heq⟩ := efOpenMemoryHash_v5 himage.schema (by unfold u64; omega) hok
    rw [heq]
    exact efGetSlot_opened himage hsize hcrc hi fun _ => hle
  · have hcrc := Slot.crcOn_of_refused hbad
    have hfits := himage.fits
    obtain ⟨hF, -, heq⟩ := efOpenExHash_v5 himage.schema (by unfold u64; omega) (by omega) hok
    rw [heq, hF]
    exact efGetSlot_opened himage hsize hcrc hi fun hb => (by cases hb)
  · exact foundSlot_of_ne himage hne

/-- A database with an index of four buckets, room for eight, and one used slot, with a byte of its
payload flipped and the metadata brought up to date. -/
def corrupted : Db :=
  let db := (efOpenMemoryHash (fun _ => 0) 131360 1 4 true Env.quiet).2.efAllocSlot.2.2
  (db.store (db.slotPtr 0 + 8) 1 7).efClose

/-- The conditions hold of an image and of a handle, and the slot is no longer refused. -/
theorem corruption_kept_iff_of_corrupted :
    (((efOpenMemoryHash corrupted.mem 131360 1 4 false Env.quiet).2.efGetSlot 0).1 = none ↔
      ZeroCrc 0 (foundSlot corrupted.mem 131360 .memory Env.quiet 0)) ∧
    (((corrupted.efIndexRehash 8).2.efGetSlot 0).1 = none ↔
      8 ≤ corrupted.hashCapacity ∨ efSlotHeaderCrcCompute 0 (corrupted.movedSlot 8 0) = 0) := by
  obtain ⟨hopen, hrehash⟩ := @corruption_kept_iff corrupted corrupted.mem 131360
    ⟨by decide +kernel, by decide +kernel, by decide +kernel⟩ (by norm_num) (by decide +kernel)
    (by decide +kernel)
  exact ⟨(hopen 0 1 4 Env.quiet (by decide +kernel) (by decide +kernel)).1 (by decide +kernel),
    hrehash 0 8 (by decide +kernel) (by decide +kernel) (by decide +kernel)⟩

/-- The corrupted slot is refused before, and accepted after a writable open and after a rehash. -/
theorem corruption_is_resealed :
    Image corrupted.mem 131360 ∧
      (imageSlot corrupted.mem 0).crcValid (Superblock.read corrupted.mem).slotCrc 0 = false ∧
      (corrupted.efGetSlot 0).1 = none ∧
      (efOpenMemoryHash corrupted.mem 131360 1 4 false Env.quiet).1 = .ok ∧
      ((efOpenMemoryHash corrupted.mem 131360 1 4 false Env.quiet).2.efGetSlot 0).1 ≠ none ∧
      (corrupted.efIndexRehash 8).1 = .ok ∧ ((corrupted.efIndexRehash 8).2.efGetSlot 0).1 ≠ none :=
  ⟨⟨by decide +kernel, by decide +kernel, by decide +kernel⟩, by decide +kernel, by decide +kernel,
    by decide +kernel, by decide +kernel, by decide +kernel, by decide +kernel⟩

end Db

end Endfields.Model
