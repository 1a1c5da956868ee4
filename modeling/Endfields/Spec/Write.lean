import Endfields.Spec.FreeList

/-!
# Slot writes on the view

The write functions of `Endfields.Model.Write` inside a transaction, each as one change of the view
with the record it leaves.

* `Db.Shows g db w rs`: the handle shows the view `w`, the undo segment aside, and its log holds the
  records `rs`. Stores and record helpers are followed through it.
* `efSetNextOffset_spec`, `efSetStatus_spec`, `efWritePayload_spec`, `efWriteField_spec`: a call
  fails and changes nothing, or makes its change and leaves its record.
-/

namespace Endfields.Model

open Endfields.Lib

/-- The handle shows the view `w`, the undo segment aside, and its log holds `rs`. -/
structure Db.Shows (g : Geometry) (db : Db) (w : View) (rs : List SlotRec) : Prop where
  core : db.core = w.core
  sb : (db.view g).sb = w.sb
  slots : (db.view g).slots = w.slots
  log : (db.view g).LogIs g rs

namespace Db

variable {g : Geometry} {db : Db} {w : View} {rs : List SlotRec} {i v : ℕ}

/-- A handle shows its own view. -/
lemma shows_of_log (hlog : (db.view g).LogIs g rs) : db.Shows g (db.view g) rs :=
  ⟨rfl, rfl, rfl, hlog⟩

namespace Shows

variable (hs : db.Shows g w rs)

include hs

/-- The view is the shown one, up to the log. -/
lemma view_eq : db.view g = w.setSeg (db.view g).seg :=
  View.ext hs.core hs.sb hs.slots rfl

/-- The order does not depend on the log. -/
lemma ok_iff : (db.view g).Ok g ↔ w.Ok g := by
  rw [hs.view_eq, View.ok_setSeg]

/-- A change of the view that leaves the segment alone. -/
lemma of_view {db' : Db} {w' : View}
    (h : db'.view g = w'.setSeg (db.view g).seg) : db'.Shows g w' rs where
  core := congrArg View.core h
  sb := by rw [h]; rfl
  slots := by rw [h]; rfl
  log := hs.log.congr (by rw [h]; rfl)

/-- A record appended to the log. -/
lemma of_record {db' : Db} {rs' : List SlotRec}
    (h : ∃ seg, db'.view g = (db.view g).setSeg seg ∧ ((db.view g).setSeg seg).LogIs g rs') :
    db'.Shows g w rs' := by
  obtain ⟨seg, hview, hlog⟩ := h
  rw [← hview] at hlog
  exact ⟨(congrArg View.core hview).trans hs.core, (congrArg View.sb hview).trans hs.sb,
    (congrArg View.slots hview).trans hs.slots, hlog⟩

/-- A stored error is not shown. -/
lemma setError (e : Err) : (db.setError e).Shows g w rs := ⟨hs.core, hs.sb, hs.slots, hs.log⟩

/-- A stored status is shown. -/
lemma setStatus (hi : i < g.n) :
    (db.setStatus (g.ptr i) v).Shows g (w.setSlot i { w.slots i with status := v % u32 }) rs := by
  refine hs.of_view ?_
  rw [view_setStatus hi, hs.view_eq]
  rfl

/-- A stored checksum is shown. -/
lemma setHeaderCrc (hi : i < g.n) :
    (db.setHeaderCrc (g.ptr i) v).Shows g
      (w.setSlot i { w.slots i with headerCrc := v % u32 }) rs := by
  refine hs.of_view ?_
  rw [view_setHeaderCrc hi, hs.view_eq]
  rfl

/-- A stored link is shown. -/
lemma setNext (hi : i < g.n) :
    (db.setNext (g.ptr i) v).Shows g
      (w.setSlot i { w.slots i with nextOffset := v % u64 }) rs := by
  refine hs.of_view ?_
  rw [view_setNext hi, hs.view_eq]
  rfl

/-- A computed checksum is shown.
Source: `endfields.c`, `ef_slot_header_crc_store` -/
lemma efSlotHeaderCrcStore (hi : i < g.n) (id : ℕ) :
    (db.efSlotHeaderCrcStore id (g.ptr i)).Shows g
      (w.setSlot i ((w.slots i).sealed w.sb.slotCrc id)) rs := by
  refine hs.of_view ?_
  rw [view_efSlotHeaderCrcStore hi, hs.view_eq]
  rfl

/-- A status record is shown at the end of the log.
Source: `ef_txn.c`, `ef_txn_record_slot_status` -/
lemma recordSlotStatus (h : w.Ok g) (hact : w.core.txnActive = true)
    (hroom : rs.length < undoLogDefaultSlots) {st crc : ℕ} (hi : i < g.n) (hst : st < u32)
    (hcrc : crc < u32) :
    (db.efTxnRecordSlotStatus i st crc).2.Shows g w (rs ++ [.status i st crc]) :=
  hs.of_record (efTxnRecordSlotStatus_spec (hs.ok_iff.mpr h)
    ((congrArg Core.txnActive hs.core).trans hact) hs.log hroom hi hst hcrc)

/-- A link record is shown at the end of the log.
Source: `ef_txn.c`, `ef_txn_record_slot_next` -/
lemma recordSlotNext (h : w.Ok g) (hact : w.core.txnActive = true)
    (hroom : rs.length < undoLogDefaultSlots) {nx : ℕ} (hi : i < g.n) (hnx : nx < u64) :
    (db.efTxnRecordSlotNext i nx).2.Shows g w (rs ++ [.next i nx]) :=
  hs.of_record (efTxnRecordSlotNext_spec (hs.ok_iff.mpr h)
    ((congrArg Core.txnActive hs.core).trans hact) hs.log hroom hi hnx)

/-- A payload record is shown at the end of the log.
Source: `ef_txn.c`, `ef_txn_record_slot_payload` -/
lemma recordSlotPayload (h : w.Ok g) (hact : w.core.txnActive = true)
    (hroom : rs.length < undoLogDefaultSlots) {bs : List UInt8} (hi : i < g.n)
    (hbs : bs.length = 8) :
    (db.efTxnRecordSlotPayload i bs).2.Shows g w (rs ++ [.payload i bs]) :=
  hs.of_record (efTxnRecordSlotPayload_spec (hs.ok_iff.mpr h)
    ((congrArg Core.txnActive hs.core).trans hact) hs.log hroom hi hbs)

end Shows

/-- A handle with the same view shows it. -/
lemma shows_of_view {db' : Db} (hlog : (db.view g).LogIs g rs) (h : db'.view g = db.view g) :
    db'.Shows g (db.view g) rs := (shows_of_log hlog).of_view h

/-! ### Status, link, payload, field -/

/-- The payload that a write of `data` leaves. -/
def padded (data : List UInt8) : List UInt8 := data ++ List.replicate (48 - data.length) 0

/-- A write fills the payload with its data and zeros. -/
lemma view_fillPayload (h : (db.view g).sb.schemaVersion = schemaVersion) (hi : i < g.n)
    {data : List UInt8} (hlen : data.length ≤ 48) :
    (db.fillPayload (g.ptr i) data).view g =
      (db.view g).setSlot i { (db.view g).slots i with payload := padded data } := by
  have hpay := view_length_payload db hi
  have hcopy := view_copyIn_payload db hi 0 data (by omega)
  simp only [Nat.add_zero] at hcopy
  unfold fillPayload
  simp only [efSlotPayloadPtr_eq h, efPayloadCapacity_eq h]
  have hzero := view_copyIn_payload (db.copyIn (g.ptr i + 8) data) hi data.length
    (List.replicate (48 - data.length) 0) (by simp; omega)
  unfold zero
  rw [memset_eq_writeBytes]
  refine hzero.trans ?_
  rw [hcopy]
  have hdrop : List.drop (data.length + (48 - data.length)) ((db.view g).slots i).payload = [] :=
    List.drop_eq_nil_of_le (by omega)
  simp [padded, hdrop]

/-- A payload of at most 48 bytes is shown, padded with zeros.
Source: `endfields.c`, `ef_write_payload` -/
lemma Shows.fillPayload (hs : db.Shows g w rs) (h : w.sb.schemaVersion = schemaVersion) (hi : i < g.n)
    {data : List UInt8} (hlen : data.length ≤ 48) :
    (db.fillPayload (g.ptr i) data).Shows g
      (w.setSlot i { w.slots i with payload := padded data }) rs := by
  refine hs.of_view ?_
  rw [view_fillPayload (by rw [hs.sb]; exact h) hi hlen, hs.view_eq]
  rfl

/-- A slot with another status, as `ef_set_status` leaves it. -/
def restatused (crcOn : Bool) (id status : ℕ) (s : Slot) : Slot :=
  if efSlotStatusHasCrc status then Slot.sealed crcOn id { s with status := status % u32 }
  else { s with status := status % u32, headerCrc := 0 }

variable {st nx off : ℕ} {data : List UInt8} {value : UInt8}

/-- **Link.** `ef_set_next_offset` fails and changes nothing, or links a used slot and leaves the
old link, if it is another, in the log. -/
lemma efSetNextOffset_spec (h : (db.view g).Ok g) (hact : db.txnActive = true)
    (hlog : (db.view g).LogIs g rs) (i nx : ℕ) :
    let r := db.efSetNextOffset i nx
    let s := (db.view g).slots i
    let crcOn := (db.view g).sb.slotCrc
    (r.1 ≠ .ok ∧ r.2.view g = db.view g) ∨
      (r.1 = .ok ∧ i < g.n ∧ s.status = statusUsed ∧ s.crcValid crcOn i = true ∧
        ((s.nextOffset ≠ nx → rs.length < undoLogDefaultSlots) →
          r.2.Shows g ((db.view g).setSlot i (Slot.sealed crcOn i { s with nextOffset := nx }))
            (rs ++ if s.nextOffset = nx then [] else [.next i s.nextOffset]))) := by
  have hslot : ∀ e : Err, (db.setError e).slotAt (g.ptr i) = db.slotAt (g.ptr i) := fun _ => rfl
  unfold efSetNextOffset
  rw [efDbRequireWrite_eq h.writable]
  simp only
  by_cases hi : i < g.n
  swap
  · rw [efGetSlot_of_ge h.toBound (by omega)]
    exact .inl ⟨fun h0 => (by cases h0), rfl⟩
  rw [efGetSlot_of_lt h.toBound hi]
  by_cases hcrc : ((db.view g).slots i).crcValid (db.view g).sb.slotCrc i = true
  swap
  · rw [if_neg hcrc]
    exact .inl ⟨fun h0 => (by cases h0), rfl⟩
  rw [if_pos hcrc]
  simp only [hslot, slotAt_eq db hi]
  by_cases hused : ((db.view g).slots i).status = statusUsed
  swap
  · rw [if_pos hused]
    exact .inl ⟨fun h0 => (by cases h0), rfl⟩
  rw [if_neg (not_not.mpr hused)]
  by_cases hchain : (db.setError .ok).efSlotHasOverflowChain (g.ptr i) = true
  · rw [if_pos hchain]
    exact .inl ⟨fun h0 => (by cases h0), rfl⟩
  rw [if_neg hchain]
  rcases htarget : (if nx = 0 then Except.ok 0 else (db.setError .ok).efOffsetToSlotId nx) with
    e | t
  · refine .inl ⟨?_, rfl⟩
    rintro rfl
    split_ifs at htarget
    exact efOffsetToSlotId_ne_error_ok htarget
  have hnx : nx % u64 = nx := by
    split_ifs at htarget with h0
    · rw [h0]
      rfl
    · have hok₀ : ((db.setError .ok).view g).Ok g := h
      obtain ⟨ht, rfl⟩ := (efOffsetToSlotId_eq_ok_iff hok₀.toBound _ _).mp htarget
      exact Nat.mod_eq_of_lt (g.ptr_lt_u64 ht)
  refine .inr ⟨rfl, hi, hused, hcrc, fun hroom => ?_⟩
  have hs₀ : (db.setError .ok).Shows g (db.view g) rs := (shows_of_log hlog).setError .ok
  have hact₀ : (db.setError .ok).txnActive = true := hact
  by_cases hsame : ((db.view g).slots i).nextOffset = nx
  · simp only [hact₀, hsame, not_true, and_false, if_false, if_true, ne_eq, List.append_nil]
    simpa [hnx] using ((hs₀.setNext (v := nx) hi).efSlotHeaderCrcStore hi i).setError .ok
  · simp only [hact₀, hsame, not_false_eq_true, and_true, if_true, if_false, ne_eq]
    have hs₁ := hs₀.recordSlotNext h hact (hroom hsame) hi (view_nextOffset_lt db hi)
    simpa [hnx] using ((hs₁.setNext (v := nx) hi).efSlotHeaderCrcStore hi i).setError .ok

/-- **Status.** `ef_set_status` with a status other than `FREE`, on a slot that it does not claim,
fails and changes nothing, or sets the status and leaves the old one in the log; a used slot that is
set to `USED` stays as it is. -/
lemma efSetStatus_spec (h : (db.view g).Ok g) (hact : db.txnActive = true)
    (hlog : (db.view g).LogIs g rs) (i st : ℕ) (hfree : st ≠ statusFree)
    (hclaim : i < g.n → st = statusUsed → ((db.view g).slots i).status ≠ statusFree) :
    let r := db.efSetStatus i st
    let s := (db.view g).slots i
    (r.2.view g = db.view g ∧ (i < g.n → st = statusUsed)) ∨
      (r.1 = .ok ∧ i < g.n ∧ ¬ (st = statusUsed ∧ s.status = statusUsed) ∧
        (rs.length < undoLogDefaultSlots →
          r.2.Shows g ((db.view g).setSlot i (restatused (db.view g).sb.slotCrc i st s))
            (rs ++ [.status i s.status s.headerCrc]))) := by
  have hslot : ∀ e : Err, (db.setError e).slotAt (g.ptr i) = db.slotAt (g.ptr i) := fun _ => rfl
  have hs₀ : (db.setError .ok).Shows g (db.view g) rs := (shows_of_log hlog).setError .ok
  have hact₀ : (db.setError .ok).txnActive = true := hact
  unfold efSetStatus
  rw [efDbRequireWrite_eq h.writable]
  simp only
  by_cases hi : i < g.n
  swap
  · rw [efPeekSlot_of_ge h.toBound (by omega)]
    exact .inl ⟨rfl, fun hlt => absurd hlt hi⟩
  rw [efPeekSlot_of_lt h.toBound hi]
  simp only [hslot, slotAt_eq db hi, hact₀, if_true]
  rw [if_neg hfree]
  have hrec : rs.length < undoLogDefaultSlots →
      ((db.setError .ok).efTxnRecordSlotStatus i ((db.view g).slots i).status
        ((db.view g).slots i).headerCrc).2.Shows g (db.view g)
        (rs ++ [.status i ((db.view g).slots i).status ((db.view g).slots i).headerCrc]) :=
    fun hroom => hs₀.recordSlotStatus h hact hroom hi (view_status_lt db hi) (view_headerCrc_lt db hi)
  by_cases hu : st = statusUsed
  · rw [if_pos hu, if_neg (hclaim hi hu)]
    split_ifs with hused
    · exact .inl ⟨rfl, fun _ => hu⟩
    · refine .inr ⟨rfl, hi, fun hboth => hused hboth.2, fun hroom => ?_⟩
      have hcrc : efSlotStatusHasCrc 1 = true := rfl
      simpa [restatused, hu, hcrc] using
        (((hrec hroom).setStatus (v := statusUsed) hi).efSlotHeaderCrcStore hi i).setError .ok
  · rw [if_neg hu]
    refine .inr ⟨rfl, hi, fun hboth => hu hboth.1, fun hroom => ?_⟩
    by_cases hcrc : efSlotStatusHasCrc st = true
    · simp only [hcrc, if_true]
      simpa [restatused, hcrc] using
        (((hrec hroom).setStatus (v := st) hi).efSlotHeaderCrcStore hi i).setError .ok
    · simp only [hcrc]
      simpa [restatused, hcrc] using
        (((hrec hroom).setStatus (v := st) hi).setHeaderCrc (v := 0) hi).setError .ok

/-- **Payload.** `ef_write_payload` on a slot that it does not claim fails and changes nothing, or
fills the payload, sets the status to `USED` and leaves the first eight bytes of the old payload in
the log. -/
lemma efWritePayload_spec (h : (db.view g).Ok g) (hact : db.txnActive = true)
    (hlog : (db.view g).LogIs g rs) (i : ℕ) (data : List UInt8)
    (hclaim : i < g.n → ((db.view g).slots i).status ≠ statusFree) :
    let r := db.efWritePayload i data
    let s := (db.view g).slots i
    let crcOn := (db.view g).sb.slotCrc
    (r.1 ≠ .ok ∧ r.2.view g = db.view g) ∨
      (r.1 = .ok ∧ i < g.n ∧ data.length ≤ 48 ∧ s.crcValid crcOn i = true ∧
        (rs.length < undoLogDefaultSlots →
          r.2.Shows g ((db.view g).setSlot i
              (Slot.sealed crcOn i { s with payload := padded data, status := statusUsed }))
            (rs ++ [.payload i (s.payload.take 8)]))) := by
  have hslot : ∀ e : Err, (db.setError e).slotAt (g.ptr i) = db.slotAt (g.ptr i) := fun _ => rfl
  have hact₀ : (db.setError .ok).txnActive = true := hact
  have hschema₀ : ((db.setError .ok).view g).sb.schemaVersion = schemaVersion := h.schema
  unfold efWritePayload
  rw [efDbRequireWrite_eq h.writable]
  simp only [efPayloadCapacity_eq h.schema]
  by_cases hlen : 48 < data.length
  · rw [if_pos hlen]
    exact .inl ⟨fun h0 => (by cases h0), rfl⟩
  rw [if_neg hlen, if_neg hlen]
  by_cases hi : i < g.n
  swap
  · rw [efPeekSlot_of_ge h.toBound (by omega)]
    exact .inl ⟨fun h0 => (by cases h0), rfl⟩
  have hclaim := hclaim hi
  rw [efPeekSlot_of_lt h.toBound hi]
  simp only [hslot, slotAt_eq db hi]
  rw [if_neg hclaim, if_pos hclaim]
  have hvalid : (db.setError .ok).efSlotHeaderCrcValid i ((db.view g).slots i) =
      ((db.view g).slots i).crcValid (db.view g).sb.slotCrc i := rfl
  rw [hvalid]
  by_cases hcrc : ((db.view g).slots i).crcValid (db.view g).sb.slotCrc i = true
  swap
  · rw [if_pos ⟨Slot.hasCrc_of_not_crcValid hcrc, by simpa using hcrc⟩]
    exact .inl ⟨fun h0 => (by cases h0), rfl⟩
  rw [if_neg (by simp [hcrc])]
  refine .inr ⟨rfl, hi, by omega, hcrc, fun hroom => ?_⟩
  have hs₀ : (db.setError .ok).Shows g (db.view g) rs := (shows_of_log hlog).setError .ok
  have hread : readBytes (db.setError .ok).mem ((db.setError .ok).efSlotPayloadPtr (g.ptr i)) 8 =
      ((db.view g).slots i).payload.take 8 := by
    rw [efSlotPayloadPtr_eq hschema₀, ← slotAt_eq db hi]
    exact (readBytes_take _ _ 48 8 (by norm_num)).symm
  simp only [hread, hact₀, if_true]
  rw [if_pos hclaim]
  have hlen8 : (((db.view g).slots i).payload.take 8).length = 8 := by
    rw [List.length_take, view_length_payload db hi]
    rfl
  have hs₁ := hs₀.recordSlotPayload h hact hroom hi hlen8
  have hs₂ := ((hs₁.fillPayload h.schema hi (by omega : data.length ≤ 48)).setStatus
    (v := statusUsed) hi).efSlotHeaderCrcStore hi i
  simpa using hs₂.setError .ok

/-- A payload write on a `FREE` slot that is not on the free list is refused. -/
lemma efWritePayload_of_not_onFreeList (h : (db.view g).Ok g) (hi : i < g.n)
    (hfree : ((db.view g).slots i).status = statusFree) (hmem : ¬ db.onFreeList i) :
    (db.efWritePayload i data).2.view g = db.view g := by
  have hok₀ : ((db.setError .ok).view g).Ok g := h
  have hslot : ∀ e : Err, (db.setError e).slotAt (g.ptr i) = db.slotAt (g.ptr i) := fun _ => rfl
  obtain ⟨herr, hview⟩ := efClaimSlot_of_not_onFreeList hok₀.toBound hi hfree hmem
  unfold efWritePayload
  rw [efDbRequireWrite_eq h.writable]
  simp only [efPayloadCapacity_eq h.schema]
  by_cases hlen : 48 < data.length
  · rw [if_pos hlen]
    rfl
  rw [if_neg hlen, if_neg hlen, efPeekSlot_of_lt h.toBound hi]
  simp only [hslot, slotAt_eq db hi]
  rw [if_pos hfree]
  rcases hc : (db.setError .ok).efClaimSlot i with ⟨e, db₁⟩
  rw [hc] at herr hview
  cases e <;> first | exact absurd rfl herr | exact hview

/-- A slot is not set to `USED` when it is `FREE` and not on the free list. -/
lemma efSetStatus_of_not_onFreeList (h : (db.view g).Ok g) (hi : i < g.n)
    (hfree : ((db.view g).slots i).status = statusFree) (hmem : ¬ db.onFreeList i) :
    (db.efSetStatus i statusUsed).2.view g = db.view g := by
  have hok₀ : ((db.setError .ok).view g).Ok g := h
  have hslot : ∀ e : Err, (db.setError e).slotAt (g.ptr i) = db.slotAt (g.ptr i) := fun _ => rfl
  unfold efSetStatus
  rw [efDbRequireWrite_eq h.writable]
  simp only
  rw [efPeekSlot_of_lt h.toBound hi]
  simp only [hslot, slotAt_eq db hi]
  rw [if_neg (by decide), if_pos trivial, if_pos hfree]
  exact (efClaimSlot_of_not_onFreeList hok₀.toBound hi hfree hmem).2

/-- A slot is not set to `FREE` when its release is refused. -/
lemma efSetStatus_of_not_accepts (h : (db.view g).Ok g) (hacc : ¬ db.freeAccepts i) :
    (db.efSetStatus i statusFree).2.view g = db.view g := by
  have hok₀ : ((db.setError .ok).view g).Ok g := h
  unfold efSetStatus
  rw [efDbRequireWrite_eq h.writable]
  simp only
  by_cases hi : i < g.n
  swap
  · rw [efPeekSlot_of_ge h.toBound (by omega)]
    rfl
  rw [efPeekSlot_of_lt h.toBound hi]
  simp only [if_true]
  split_ifs
  · rfl
  · exact (efFreeSlot_of_not_accepts hok₀.toBound hacc).2

/-- A byte of the checksum field is written, or a byte is written over itself: only the checksum
field can change. -/
lemma read_field_kept {m : Mem} {p off : ℕ} (hoff : (4 ≤ off ∧ off < 8) ∨ m (p + off) = value) :
    ∃ c, Slot.read (writeBytes m (p + off) [value]) p = { Slot.read m p with headerCrc := c } := by
  rcases hoff with ⟨h4, h8⟩ | rfl
  · refine ⟨load (writeBytes m (p + off) [value]) (p + 4) 4, ?_⟩
    have hout : ∀ x, x < p + 4 ∨ p + 8 ≤ x → writeBytes m (p + off) [value] x = m x := by
      intro x hx
      exact writeBytes_apply_of_outside (by simp only [List.length_singleton]; omega)
    unfold Slot.read
    rw [load_congr (a := p) fun x _ hx => hout x (by omega),
      load_congr (a := p + 56) fun x hx _ => hout x (by omega),
      readBytes_congr (a := p + 8) fun x hx _ => hout x (by omega)]
  · exact ⟨(Slot.read m p).headerCrc, by rw [writeBytes_self]⟩

/-- **Field.** `ef_write_field` on another field than `0`, with a value that changes at most the
checksum field, fails and changes nothing, or brings the checksum up to date. -/
lemma efWriteField_spec (h : (db.view g).Ok g) (i : ℕ)
    (hkeep : i < g.n → off < 64 → ((db.view g).slots i).crcValid (db.view g).sb.slotCrc i = true →
      off ≠ 0 ∧ ((4 ≤ off ∧ off < 8) ∨ db.mem (db.slotPtr i + off) = value)) :
    let r := db.efWriteField i off value
    let s := (db.view g).slots i
    let crcOn := (db.view g).sb.slotCrc
    (r.1 ≠ .ok ∧ r.2.view g = db.view g) ∨
      (r.1 = .ok ∧ i < g.n ∧ off < 64 ∧ s.crcValid crcOn i = true ∧
        ∃ c, r.2.view g = (db.view g).setSlot i (Slot.sealed crcOn i { s with headerCrc := c })) := by
  unfold efWriteField
  rw [efDbRequireWrite_eq h.writable]
  simp only
  by_cases hi : i < g.n
  swap
  · rw [efGetSlot_of_ge h.toBound (by omega)]
    exact .inl ⟨fun h0 => (by cases h0), rfl⟩
  rw [efGetSlot_of_lt h.toBound hi]
  by_cases hcrc : ((db.view g).slots i).crcValid (db.view g).sb.slotCrc i = true
  swap
  · rw [if_neg hcrc]
    exact .inl ⟨fun h0 => (by cases h0), rfl⟩
  rw [if_pos hcrc]
  simp only
  by_cases hlt : 64 ≤ off
  · rw [if_pos hlt]
    exact .inl ⟨fun h0 => (by cases h0), rfl⟩
  obtain ⟨h0, hoff⟩ := hkeep hi (by omega) hcrc
  rw [if_neg hlt, if_neg (by simp [h0])]
  rw [slotPtr_eq h.cap] at hoff
  obtain ⟨c, hread⟩ := read_field_kept hoff
  have hview : ((db.setError .ok).copyIn (g.ptr i + off) [value]).view g =
      (db.view g).setSlot i { (db.view g).slots i with headerCrc := c } := by
    unfold copyIn
    rw [view_of_slot_write hi fun x hx => writeBytes_apply_of_outside
      (by simp only [List.length_singleton]; omega), ← slotAt_eq db hi]
    exact congrArg _ hread
  refine .inr ⟨rfl, hi, by omega, hcrc, c, ?_⟩
  rw [view_setError, view_efSlotHeaderCrcStore hi, hview]
  simp

end Db

end Endfields.Model
