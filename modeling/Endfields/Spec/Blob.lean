import Endfields.Lib.Toggle
import Endfields.Spec.Queue

/-!
# What a blob reads as

The read of a blob, as a walk along the links of its head and of the overflow slots.

* `Db.isChunk db j`: a read goes on at slot `j`; `Db.blobChunks db i`: the slots at which the read
  of the blob `i` does.
* **The read** (`efReadBlob_bytes`): its bytes are those of the head, then those of the chunks, as
  far as the length of the blob and the buffer go.
-/

namespace Endfields.Model

open Endfields.Lib

namespace Geometry

variable {g : Geometry} {good good' : ℕ → Bool} {next next' : ℕ → ℕ} {o : ℕ}

/-- Tests that agree on the slots. -/
lemma filter_congr (h : ∀ j, j < g.n → good' j = good j) :
    (g.idOf o).filter good' = (g.idOf o).filter good := by
  rcases hid : g.idOf o with _ | j
  · rfl
  · rw [Option.filter_some, Option.filter_some, h j ((g.idOf_eq_some_iff _ _).mp hid).1]

/-- Walks over the slots. -/
lemma walk_congr {resolve : ℕ → Option ℕ} {k off : ℕ}
    (hres : ∀ o, resolve o = (g.idOf o).filter good)
    (hnext : ∀ j, j < g.n → next' j = next j) :
    walk resolve next' k off = walk (fun o => (g.idOf o).filter good) next k off := by
  refine Lib.walk_congr hres fun j hj => hnext j ?_
  obtain ⟨o, ho⟩ := exists_of_mem_walk hj
  exact ((g.idOf_eq_some_iff _ _).mp (Option.filter_eq_some_iff.mp ho).1).1

end Geometry

/-- The read of a blob goes on at this slot. -/
def View.isChunk (v : View) (j : ℕ) : Bool :=
  (v.slots j).crcValid v.sb.slotCrc j = true ∧ (v.slots j).status = statusOverflow

/-- The payload of a slot. In the layout without slot checksums it takes in the checksum field. -/
def Slot.data (legacy : Bool) (s : Slot) : List UInt8 :=
  if legacy then leBytes 4 s.headerCrc ++ s.payload else s.payload

namespace Db

variable {db : Db} {i j need bufCap fuel k off : ℕ}

/-- The slot id of an offset. -/
def slotIdAt (db : Db) (off : ℕ) : Option ℕ := (db.efOffsetToSlotId off).toOption

/-- The read of a blob goes on at this slot.
Source: `ef_blob.c`, `ef_read_blob`; `endfields.c`, `ef_get_slot` -/
def isChunk (db : Db) (j : ℕ) : Bool :=
  db.efSlotHeaderCrcValid j (db.slot j) = true ∧ (db.slot j).status = statusOverflow

/-- The read of a blob starts at this slot.
Source: `ef_blob.c`, `ef_read_blob`; `endfields.c`, `ef_get_slot` -/
def isBlob (db : Db) (i : ℕ) : Bool :=
  i < db.sb.maxSlots ∧ db.efSlotHeaderCrcValid i (db.slot i) = true ∧
    (db.slot i).status = statusUsed ∧ db.efBlobMagicValid (db.slotPtr i) = true

/-- The number of overflow slots that the length of the blob takes. -/
def chunkCount (db : Db) (i : ℕ) : ℕ :=
  (db.efBlobReadLen (db.slotPtr i) - db.efBlobInlineCapacity + (db.efBlobOverflowChunkCap - 1)) /
    db.efBlobOverflowChunkCap

/-- The overflow slots that the read of the blob goes through. -/
def blobChunks (db : Db) (i : ℕ) : List ℕ :=
  walk (fun o => (db.slotIdAt o).filter db.isChunk) (fun j => (db.slot j).nextOffset)
    (db.chunkCount i) (db.slot i).nextOffset

/-- The payload of an overflow slot. -/
def chunkBytes (db : Db) (j : ℕ) : List UInt8 :=
  readBytes db.mem (db.efSlotPayloadPtr (db.slotPtr j)) db.efBlobOverflowChunkCap

/-- The bytes of the blob that its head holds. -/
def blobInline (db : Db) (i : ℕ) : List UInt8 :=
  readBytes db.mem (db.efSlotPayloadPtr (db.slotPtr i) + 8)
    (min (db.efBlobReadLen (db.slotPtr i)) db.efBlobInlineCapacity)

/-- A payload holds at least 48 bytes.
Source: `endfields.c`, `ef_payload_capacity` -/
lemma efPayloadCapacity_ge (db : Db) : 48 ≤ db.efPayloadCapacity := by
  unfold efPayloadCapacity
  split_ifs <;> norm_num

/-- No slot has the offset `0`. -/
lemma slotIdAt_zero (db : Db) : db.slotIdAt 0 = none := by
  have hbase := db.slotsBase_ge
  unfold slotIdAt efOffsetToSlotId
  rw [if_pos (by omega)]
  rfl

/-- What `ef_get_slot` makes of a slot of an offset, for the read of a blob. -/
lemma isChunk_iff (hid : db.efOffsetToSlotId off = .ok j) :
    (∃ e db', db.efGetSlot j = (none, db') ∧ db'.lastErr = e ∧ db.isChunk j = false) ∨
      ∃ db', db.efGetSlot j = (some (db.slotPtr j), db') ∧
        (db.isChunk j = true ↔ (db.slot j).status = statusOverflow) := by
  have hj : j < db.sb.maxSlots := by
    unfold efOffsetToSlotId at hid
    split_ifs at hid with h1 h2 h3
    · simp only [Except.ok.injEq] at hid
      omega
  unfold efGetSlot efPeekSlot
  rw [if_neg (by omega)]
  simp only
  have hslot : (db.setError .ok).slotAt (db.slotPtr j) = db.slot j := rfl
  have hvalid : (db.setError .ok).efSlotHeaderCrcValid j (db.slot j) =
      db.efSlotHeaderCrcValid j (db.slot j) := rfl
  rw [hslot, hvalid]
  by_cases hbad : efSlotStatusHasCrc (db.slot j).status = true ∧
      db.efSlotHeaderCrcValid j (db.slot j) = false
  · rw [if_pos hbad]
    refine .inl ⟨_, _, rfl, rfl, ?_⟩
    simp [isChunk, hbad.2]
  · rw [if_neg hbad]
    refine .inr ⟨_, rfl, ?_⟩
    unfold isChunk
    rw [decide_eq_true_eq]
    refine ⟨fun h => h.2, fun h => ⟨?_, h⟩⟩
    by_contra hv
    exact hbad ⟨by rw [h]; rfl, by simpa using hv⟩

/-- **The chain loop** of a read, once the bytes `B` have been met. -/
lemma readBlobLoop_bytes {B : List UInt8} (hk : need ≤ B.length + k * db.efBlobOverflowChunkCap)
    (hfuel : need < (B.take (min need bufCap)).length + fuel) :
    (db.readBlobLoop need bufCap fuel off (B.take (min need bufCap))).2 =
      (B ++ (walk (fun o => (db.slotIdAt o).filter db.isChunk) (fun j => (db.slot j).nextOffset) k
        off).flatMap db.chunkBytes).take (min need bufCap) := by
  have hcap : 48 ≤ db.efBlobOverflowChunkCap := db.efPayloadCapacity_ge
  induction fuel generalizing B off k with
  | zero =>
      rw [List.length_take] at hfuel
      omega
  | succ fuel ih =>
      rw [readBlobLoop]
      by_cases hstop : need ≤ (B.take (min need bufCap)).length ∨
          bufCap ≤ (B.take (min need bufCap)).length ∨ off = 0
      · rw [if_pos hstop]
        rcases hstop with hstop | hstop | rfl
        · rw [List.take_append_of_le_length (by rw [List.length_take] at hstop; omega)]
        · rw [List.take_append_of_le_length (by rw [List.length_take] at hstop; omega)]
        · have hnil : walk (fun o => (db.slotIdAt o).filter db.isChunk)
              (fun j => (db.slot j).nextOffset) k 0 = [] := by
            cases k with
            | zero => rfl
            | succ k => rw [walk, slotIdAt_zero]; rfl
          rw [hnil, List.flatMap_nil, List.append_nil]
      rw [if_neg hstop]
      -- bytes are missing, so all of `B` has been copied
      have hlt : B.length < min need bufCap := by
        rw [List.length_take] at hstop
        omega
      have hB : B.take (min need bufCap) = B := List.take_of_length_le hlt.le
      rw [hB] at hfuel ⊢
      obtain ⟨k, rfl⟩ : ∃ k', k = k' + 1 := by
        refine ⟨k - 1, ?_⟩
        rcases k with _ | k
        · omega
        · rfl
      rw [walk]
      rcases hid : db.efOffsetToSlotId off with e | j
      · have hnone : db.slotIdAt off = none := by
          unfold slotIdAt
          rw [hid]
          rfl
        rw [hnone]
        simp [hB]
      have hsome : db.slotIdAt off = some j := by
        unfold slotIdAt
        rw [hid]
        rfl
      simp only [hsome, Option.filter_some]
      rcases isChunk_iff hid with ⟨e, db', hget, -, hchunk⟩ | ⟨db', hget, hchunk⟩
      · rw [hget, hchunk]
        simp [hB]
      rw [hget]
      simp only
      have hst : (db.slotAt (db.slotPtr j)).status = (db.slot j).status := rfl
      rw [hst]
      by_cases hov : (db.slot j).status = statusOverflow
      swap
      · have hno : db.isChunk j = false := by
          rw [← Bool.not_eq_true, hchunk]
          exact hov
        rw [if_pos hov, hno]
        simp [hB]
      rw [if_neg (not_not.mpr hov), hchunk.mpr hov]
      simp only [if_true, List.flatMap_cons]
      -- the bytes of the slot, as far as they are wanted
      have hn : min (min (need - B.length) db.efBlobOverflowChunkCap) (bufCap - B.length) =
          min (min need bufCap - B.length) db.efBlobOverflowChunkCap := by omega
      have hlen : (db.chunkBytes j).length = db.efBlobOverflowChunkCap := length_readBytes _ _ _
      have hnew : B ++ readBytes db.mem (db.efSlotPayloadPtr (db.slotPtr j))
          (min (min need bufCap - B.length) db.efBlobOverflowChunkCap) =
            (B ++ db.chunkBytes j).take (min need bufCap) := by
        rw [List.take_append, hB]
        congr 1
        rcases le_total (min need bufCap - B.length) db.efBlobOverflowChunkCap with hle | hle
        · rw [min_eq_left hle]
          exact (readBytes_take _ _ _ _ hle).symm
        · rw [min_eq_right hle, List.take_of_length_le (by rw [hlen]; exact hle)]
          rfl
      have hmul : (k + 1) * db.efBlobOverflowChunkCap =
          k * db.efBlobOverflowChunkCap + db.efBlobOverflowChunkCap := by ring
      rw [hn, hnew]
      refine (ih (k := k) ?_ ?_).trans ?_
      · rw [List.length_append, hlen]
        omega
      · rw [List.length_take, List.length_append, hlen]
        omega
      · rw [List.append_assoc]
        rfl

/-- The head holds the first bytes of the blob.
Source: `ef_blob.c`, `ef_blob_inline_capacity` -/
lemma length_blobInline (db : Db) (i : ℕ) : (db.blobInline i).length =
    min (db.efBlobReadLen (db.slotPtr i)) db.efBlobInlineCapacity := length_readBytes _ _ _

/-- The chunks hold what the head does not. -/
lemma readLen_le_chunks (db : Db) (i : ℕ) : db.efBlobReadLen (db.slotPtr i) ≤
    (db.blobInline i).length + db.chunkCount i * db.efBlobOverflowChunkCap := by
  have hcap : 48 ≤ db.efBlobOverflowChunkCap := db.efPayloadCapacity_ge
  have hdiv := Nat.lt_div_mul_add (a := db.efBlobReadLen (db.slotPtr i) - db.efBlobInlineCapacity +
    (db.efBlobOverflowChunkCap - 1)) (b := db.efBlobOverflowChunkCap) (by omega)
  rw [length_blobInline]
  unfold chunkCount
  omega

/-- What the read copies from the head. -/
lemma blobInline_take (db : Db) (i bufCap : ℕ) :
    readBytes db.mem (db.efSlotPayloadPtr (db.slotPtr i) + 8)
      (min (min (db.efBlobReadLen (db.slotPtr i)) db.efBlobInlineCapacity) bufCap) =
        (db.blobInline i).take (min (db.efBlobReadLen (db.slotPtr i)) bufCap) := by
  unfold blobInline
  generalize db.efBlobReadLen (db.slotPtr i) = need
  rcases le_total (min need bufCap) (min need db.efBlobInlineCapacity) with hle | hle
  · rw [readBytes_take _ _ _ _ hle]
    congr 1
    omega
  · rw [List.take_of_length_le (by rw [length_readBytes]; exact hle)]
    congr 1
    omega

/-- **The read of a blob**: the length that its head names, and the bytes of the head and of the
chunks, up to that length and to the size of the buffer. -/
lemma efReadBlob_bytes (db : Db) (i bufCap : ℕ) : (db.efReadBlob i bufCap).2 =
    if db.isBlob i = true then
      ((db.blobInline i ++ (db.blobChunks i).flatMap db.chunkBytes).take
        (min (db.efBlobReadLen (db.slotPtr i)) bufCap), db.efBlobReadLen (db.slotPtr i))
    else ([], 0) := by
  unfold efReadBlob efGetSlot efPeekSlot
  have hslot : (db.setError .ok).slotAt (db.slotPtr i) = db.slot i := rfl
  have hvalid : (db.setError .ok).efSlotHeaderCrcValid i (db.slot i) =
      db.efSlotHeaderCrcValid i (db.slot i) := rfl
  by_cases hi : i < db.sb.maxSlots
  swap
  · rw [if_pos (by omega), if_neg (by simp [isBlob, hi])]
  rw [if_neg (by omega)]
  simp only
  rw [hslot, hvalid]
  by_cases hbad : efSlotStatusHasCrc (db.slot i).status = true ∧
      db.efSlotHeaderCrcValid i (db.slot i) = false
  · rw [if_pos hbad, if_neg (by simp [isBlob, hbad.2])]
  rw [if_neg hbad]
  simp only
  rw [hslot]
  by_cases hst : (db.slot i).status = statusUsed
  swap
  · have hno : ¬ db.isBlob i = true := by
      unfold isBlob
      rw [decide_eq_true_eq]
      exact fun h => hst h.2.2.1
    rw [if_pos hst, if_neg hno]
  rw [if_neg (not_not.mpr hst)]
  by_cases hmagic : db.efBlobMagicValid (db.slotPtr i) = true
  swap
  · have hmagic' : (db.setError .ok).efBlobMagicValid (db.slotPtr i) = false := by
      rw [← Bool.not_eq_true]
      exact hmagic
    rw [if_pos hmagic', if_neg (by simp [isBlob, hmagic])]
  have hmagic' : ¬ (db.setError .ok).efBlobMagicValid (db.slotPtr i) = false := by
    show ¬ db.efBlobMagicValid (db.slotPtr i) = false
    rw [hmagic]
    exact Bool.true_eq_false.mp
  have hv : db.efSlotHeaderCrcValid i (db.slot i) = true := by
    by_contra hv
    exact hbad ⟨by rw [hst]; rfl, by simpa using hv⟩
  have hblob : db.isBlob i = true := by simp [isBlob, hi, hv, hst, hmagic]
  rw [if_neg hmagic', if_pos hblob]
  by_cases hbuf : bufCap = 0
  · rw [if_pos hbuf, hbuf]
    simp
    rfl
  rw [if_neg hbuf]
  -- the error word, cleared first, is not read again
  have hptr : (db.setError .ok).slotPtr i = db.slotPtr i := rfl
  have hchunks : (db.setError .ok).blobChunks i = db.blobChunks i := rfl
  have hbytes : (db.setError .ok).chunkBytes = db.chunkBytes := rfl
  have hinline : (db.setError .ok).blobInline i = db.blobInline i := rfl
  have hneed : (db.setError .ok).efBlobReadLen (db.slotPtr i) = db.efBlobReadLen (db.slotPtr i) := rfl
  have hcopied := (db.setError .ok).blobInline_take i bufCap
  have hloop := @readBlobLoop_bytes (db.setError .ok) _ bufCap _ _ (db.slot i).nextOffset _
    ((db.setError .ok).readLen_le_chunks i) (Nat.lt_add_left _ (Nat.lt_succ_self _))
  rw [← hcopied, hptr, hneed] at hloop
  rw [hneed]
  refine Prod.ext (hloop.trans ?_) rfl
  rw [hinline, hbytes]
  exact congrArg (fun l => List.take _ (_ ++ List.flatMap _ l)) hchunks

/-! ### The read on the view -/

variable {g : Geometry} {db' : Db}

/-- The slot at an offset, by the geometry. -/
lemma slotIdAt_eq (h : (db.view g).Bound g) (off : ℕ) : db.slotIdAt off = g.idOf off :=
  efOffsetToSlotId_toOption h off

/-- A slot of a chain, read off the view. -/
lemma isChunk_eq (h : (db.view g).Bound g) (hj : j < g.n) :
    db.isChunk j = (db.view g).isChunk j := by
  unfold isChunk View.isChunk
  rw [slot_eq h.cap hj]
  rfl

/-- The chunks of a blob, as a walk over the links. -/
lemma blobChunks_eq (h : (db.view g).Bound g) (hi : i < g.n) : db.blobChunks i =
    walk (fun o => (g.idOf o).filter (db.view g).isChunk)
      (fun j => ((db.view g).slots j).nextOffset) (db.chunkCount i)
      ((db.view g).slots i).nextOffset := by
  unfold blobChunks
  rw [slot_eq h.cap hi]
  refine g.walk_congr (fun o => ?_) fun j hj => by rw [slot_eq h.cap hj]
  rw [slotIdAt_eq h]
  exact g.filter_congr fun j hj => isChunk_eq h hj

/-- The payload of a slot is part of the slot. -/
lemma readBytes_payload (db : Db) (p : ℕ) :
    readBytes db.mem (db.efSlotPayloadPtr p) db.efPayloadCapacity =
      (db.slotAt p).data db.legacyPayload := by
  unfold Slot.data efPayloadCapacity efSlotPayloadPtr
  by_cases hl : db.legacyPayload = true
  · rw [if_pos hl, if_pos hl, if_pos hl]
    show readBytes db.mem (p + 4) (4 + 48) = leBytes 4 (load db.mem (p + 4) 4) ++
      readBytes db.mem (p + 4 + 4) 48
    rw [readBytes_add, leBytes_load]
  · rw [if_neg hl, if_neg hl, if_neg hl]
    rfl

/-- The capacity depends on the form of the payload alone.
Source: `endfields.c`, `ef_payload_capacity` -/
lemma efPayloadCapacity_congr (hl : db'.legacyPayload = db.legacyPayload) :
    db'.efPayloadCapacity = db.efPayloadCapacity := by
  unfold efPayloadCapacity
  rw [hl]

/-- The payload's place depends on its form alone.
Source: `endfields.c`, `ef_slot_payload_ptr` -/
lemma efSlotPayloadPtr_congr (hl : db'.legacyPayload = db.legacyPayload) (p : ℕ) :
    db'.efSlotPayloadPtr p = db.efSlotPayloadPtr p := by
  unfold efSlotPayloadPtr
  rw [hl]

/-- The bytes of a payload are part of its slot. -/
lemma mem_of_slotAt {p a : ℕ} (hl : db'.legacyPayload = db.legacyPayload)
    (h : db'.slotAt p = db.slotAt p) (ha : db.efSlotPayloadPtr p ≤ a)
    (ha' : a < db.efSlotPayloadPtr p + db.efPayloadCapacity) : db'.mem a = db.mem a := by
  have hpay := (db'.readBytes_payload p).trans
      ((by rw [hl, h] : _ = _).trans (db.readBytes_payload p).symm)
  rw [efPayloadCapacity_congr hl, efSlotPayloadPtr_congr hl] at hpay
  obtain ⟨k, rfl⟩ : ∃ k, a = db.efSlotPayloadPtr p + k := ⟨a - db.efSlotPayloadPtr p, by omega⟩
  have hget := congrArg (fun l => l[k]?) hpay
  rw [List.getElem?_eq_getElem (by rw [length_readBytes]; omega),
    List.getElem?_eq_getElem (by rw [length_readBytes]; omega), getElem_readBytes,
    getElem_readBytes] at hget
  exact Option.some.inj hget

/-- What a read takes from the head is part of the slot. -/
lemma blobHead_congr (hl : db'.legacyPayload = db.legacyPayload) (hptr : db'.slotPtr i = db.slotPtr i)
    (hslot : db'.slot i = db.slot i) :
    db'.efBlobMagicValid (db'.slotPtr i) = db.efBlobMagicValid (db.slotPtr i) ∧
      db'.efBlobReadLen (db'.slotPtr i) = db.efBlobReadLen (db.slotPtr i) ∧
      db'.blobInline i = db.blobInline i ∧ db'.chunkCount i = db.chunkCount i := by
  have hge := db.efPayloadCapacity_ge
  have hmem : ∀ a, db.efSlotPayloadPtr (db.slotPtr i) ≤ a →
      a < db.efSlotPayloadPtr (db.slotPtr i) + db.efPayloadCapacity → db'.mem a = db.mem a := by
    refine fun a => mem_of_slotAt hl ?_
    unfold slot at hslot
    rwa [hptr] at hslot
  have hcap : db'.efBlobInlineCapacity = db.efBlobInlineCapacity := by
    unfold efBlobInlineCapacity
    rw [efPayloadCapacity_congr hl]
  have hchunk : db'.efBlobOverflowChunkCap = db.efBlobOverflowChunkCap := efPayloadCapacity_congr hl
  have hmagic : db'.efBlobMagicValid (db'.slotPtr i) = db.efBlobMagicValid (db.slotPtr i) := by
    unfold efBlobMagicValid
    rw [efSlotPayloadPtr_congr hl, hptr, load_congr fun a h1 h2 => hmem a h1 (by omega)]
  have hlen : db'.efBlobReadLen (db'.slotPtr i) = db.efBlobReadLen (db.slotPtr i) := by
    unfold efBlobReadLen
    rw [hmagic, efSlotPayloadPtr_congr hl, hptr,
      load_congr fun a h1 h2 => hmem a (by omega) (by omega)]
  refine ⟨hmagic, hlen, ?_, ?_⟩
  · have hle : db.efBlobInlineCapacity + 8 = db.efPayloadCapacity := by
      unfold efBlobInlineCapacity
      omega
    unfold blobInline
    rw [hlen, hcap, efSlotPayloadPtr_congr hl, hptr]
    exact readBytes_congr fun a h1 h2 => hmem a (by omega) (by omega)
  · unfold chunkCount
    rw [hlen, hcap, hchunk]

/-- The bytes of a chunk, read off the view. -/
lemma chunkBytes_eq (h : (db.view g).Bound g) (hj : j < g.n) :
    db.chunkBytes j = ((db.view g).slots j).data db.legacyPayload := by
  unfold chunkBytes efBlobOverflowChunkCap
  rw [readBytes_payload, slotPtr_eq h.cap, slotAt_eq db hj]

end Db

end Endfields.Model
