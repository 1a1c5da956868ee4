import Endfields.Spec.Write

/-!
# Aborting a transaction of slot writes

Each write leaves a partial picture of the slot in the log: the status with its checksum, the link,
or the first eight bytes of the payload. What the picture leaves out is not restored.

* `SlotWrite`: the calls of such a transaction; `SlotWrite.recorded`: the picture holds all that the
  call changes.
* `Slot.Same`: equal status, payload and link, and the same verdict of `ef_get_slot`.
* **Main result** (`abort_restores_slots`): in every transaction of recorded writes, the abort
  restores every slot.
-/

namespace Endfields.Model

open Endfields.Lib

/-- The calls of a transaction of slot writes. -/
inductive SlotWrite
  | payload (slotId : ℕ) (data : List UInt8)
  | field (slotId fieldOffset : ℕ) (value : UInt8)
  | next (slotId nextOffset : ℕ)
  | status (slotId status : ℕ)
  deriving DecidableEq, Repr

namespace SlotWrite

/-- The result of the call. -/
def call : SlotWrite → Db → Err × Db
  | payload slotId data, db => db.efWritePayload slotId data
  | field slotId fieldOffset value, db => db.efWriteField slotId fieldOffset value
  | next slotId nextOffset, db => db.efSetNextOffset slotId nextOffset
  | status slotId st, db => db.efSetStatus slotId st

/-- The handle after the call. -/
def run (op : SlotWrite) (db : Db) : Db := (op.call db).2

/-- The number of records that the call leaves when it succeeds. -/
def records : SlotWrite → Db → ℕ
  | payload _ _, _ => 1
  | field _ fieldOffset _, _ => if fieldOffset = 0 then 1 else 0
  | next slotId nextOffset, db => if (db.slot slotId).nextOffset = nextOffset then 0 else 1
  | status slotId st, db =>
      if st = statusFree then 2
      else if st = statusUsed ∧
          ((db.slot slotId).status = statusFree ∨ (db.slot slotId).status = statusUsed) then 0
      else 1

/-- The records of the call fit the log. -/
def fits (op : SlotWrite) (db : Db) : Prop := (op.call db).1 = .ok → db.logRoom (op.records db)

/-- The record of the call holds all that the call changes, or the call is refused:

* a payload write is on a `USED` slot, and keeps the payload from its ninth byte on;
* a field write is in the checksum field, or writes the byte that is there, and the checksum it
  stores is not zero;
* a status write does not release a slot;
* no write claims a slot from the free list. -/
def recorded : SlotWrite → Db → Prop
  | payload slotId data, db =>
      let s := db.slot slotId
      slotId < db.sb.maxSlots → data.length ≤ 48 →
        (s.status = statusFree → ¬ db.onFreeList slotId) ∧
        (s.status ≠ statusFree → db.efSlotHeaderCrcValid slotId s = true →
          s.status = statusUsed ∧ (Db.padded data).drop 8 = s.payload.drop 8)
  | field slotId fieldOffset value, db =>
      let s := db.slot slotId
      slotId < db.sb.maxSlots → fieldOffset < 64 → db.efSlotHeaderCrcValid slotId s = true →
        fieldOffset ≠ 0 ∧
        ((4 ≤ fieldOffset ∧ fieldOffset < 8) ∨
          db.mem (db.slotPtr slotId + fieldOffset) = value) ∧
        (db.sb.slotCrc = true → efSlotStatusUsesLinkCrc s.status = true →
          efSlotHeaderCrcCompute slotId s ≠ 0)
  | next _ _, _ => True
  | status slotId st, db =>
      let s := db.slot slotId
      (st = statusFree → ¬ db.freeAccepts slotId) ∧
      (st = statusUsed → slotId < db.sb.maxSlots → s.status = statusFree →
        ¬ db.onFreeList slotId)

instance (op : SlotWrite) (db : Db) : Decidable (op.fits db) :=
  inferInstanceAs (Decidable (_ → _))

instance : (op : SlotWrite) → (db : Db) → Decidable (op.recorded db)
  | payload _ _, _ => inferInstanceAs (Decidable (_ → _))
  | field _ _ _, _ => inferInstanceAs (Decidable (_ → _))
  | next _ _, _ => inferInstanceAs (Decidable True)
  | status _ _, _ => inferInstanceAs (Decidable (_ ∧ _))

end SlotWrite

/-! ### The same slot -/

/-- Two slots agree on status, payload and link, and on the check of their checksum. -/
structure Slot.Same (crcOn : Bool) (id : ℕ) (s t : Slot) : Prop where
  status : s.status = t.status
  payload : s.payload = t.payload
  next : s.nextOffset = t.nextOffset
  valid : s.crcValid crcOn id = t.crcValid crcOn id

namespace Slot

variable {crcOn : Bool} {id : ℕ} {s t : Slot}

/-- A slot is the same as itself. -/
lemma Same.refl (crcOn : Bool) (id : ℕ) (s : Slot) : Same crcOn id s s := ⟨rfl, rfl, rfl, rfl⟩

/-- The same slot, over two steps. -/
lemma Same.trans {u : Slot} (h : Same crcOn id s t) (h' : Same crcOn id t u) :
    Same crcOn id s u :=
  ⟨h.status.trans h'.status, h.payload.trans h'.payload, h.next.trans h'.next,
    h.valid.trans h'.valid⟩

/-- A right checksum is not zero. Queue nodes may have the checksum over the payload too. -/
lemma compute_ne_zero_of_crcValid (h : s.crcValid crcOn id = true) (hon : crcOn = true)
    (hhas : efSlotStatusHasCrc s.status = true) (hlink : efSlotStatusUsesLinkCrc s.status = false) :
    efSlotHeaderCrcCompute id s ≠ 0 := by
  subst hon
  unfold crcValid at h
  simp only [Bool.true_eq_false, if_false, hhas, hlink] at h
  split_ifs at h with h0 h1
  · rw [← h1]
    exact h0
  · simp at h

/-- A slot with the content of a valid used slot, its checksum brought up to date. -/
lemma same_sealed_of_used (hstatus : s.status = t.status) (hpayload : s.payload = t.payload)
    (hnext : s.nextOffset = t.nextOffset) (hused : t.status = statusUsed)
    (hvalid : t.crcValid crcOn id = true) : Same crcOn id (s.sealed crcOn id) t where
  status := by rw [sealed_status, hstatus]
  payload := by rw [sealed_payload, hpayload]
  next := by rw [sealed_nextOffset, hnext]
  valid := by
    rw [hvalid]
    refine crcValid_sealed fun hon hhas => ?_
    rw [compute_congr hstatus hpayload hnext]
    exact compute_ne_zero_of_crcValid hvalid hon (by rw [hused]; rfl) (by rw [hused]; rfl)

end Slot

/-- Two views have the same slots. -/
structure View.SameSlots (g : Geometry) (v w : View) : Prop where
  crcOn : v.sb.slotCrc = w.sb.slotCrc
  slots : ∀ i, i < g.n → Slot.Same w.sb.slotCrc i (v.slots i) (w.slots i)

namespace View

variable {g : Geometry} {v w : View} {i : ℕ} {s : Slot}

/-- The slots are the same as themselves. -/
lemma SameSlots.refl (g : Geometry) (v : View) : SameSlots g v v :=
  ⟨rfl, fun _ _ => Slot.Same.refl _ _ _⟩

/-- The same slots, over two steps. -/
lemma SameSlots.trans {u : View} (h : SameSlots g v w) (h' : SameSlots g w u) :
    SameSlots g v u where
  crcOn := h.crcOn.trans h'.crcOn
  slots i hi := by
    have hvw := h.slots i hi
    rw [h'.crcOn] at hvw
    exact hvw.trans (h'.slots i hi)

/-- Putting slot `i` right makes the slots the same, when the others are. -/
lemma SameSlots.setSlot {s' : Slot} (h : SameSlots g v (w.setSlot i s'))
    (hs : i < g.n → Slot.Same w.sb.slotCrc i s (w.slots i)) : SameSlots g (v.setSlot i s) w where
  crcOn := h.crcOn
  slots j hj := by
    have hvw := h.slots j hj
    rw [setSlot_slots, Function.update_apply] at hvw ⊢
    by_cases hji : j = i
    · subst hji
      rw [if_pos rfl]
      exact hs hj
    · rw [if_neg hji] at hvw ⊢
      exact hvw

end View

/-! ### What each record restores -/

namespace View

variable {g : Geometry} {v : View} {i : ℕ}

/-- The record of a status write restores the slot. -/
lemma sameSlots_reverses_status (st : ℕ) :
    Reverses (undo g) (SameSlots g) v [.status i (v.slots i).status (v.slots i).headerCrc]
      (v.setSlot i (Db.restatused v.sb.slotCrc i st (v.slots i))) := by
  refine Reverses.single fun x hx => hx.setSlot fun hi => ?_
  have hxi := hx.slots i hi
  rw [setSlot_slots, Function.update_self] at hxi
  have hpayload : (x.slots i).payload = (v.slots i).payload := by
    rw [hxi.payload]
    unfold Db.restatused
    split_ifs <;> simp
  have hnext : (x.slots i).nextOffset = (v.slots i).nextOffset := by
    rw [hxi.next]
    unfold Db.restatused
    split_ifs <;> simp
  refine ⟨rfl, hpayload, hnext, ?_⟩
  by_cases hhas : efSlotStatusHasCrc (v.slots i).status = true
  · simp only [if_pos hhas, hpayload, hnext]
  · unfold Slot.crcValid
    simp [hhas]

/-- The record of a link restores the link of a valid used slot. -/
lemma sameSlots_reverses_next (nx : ℕ) (hused : (v.slots i).status = statusUsed)
    (hvalid : (v.slots i).crcValid v.sb.slotCrc i = true) :
    Reverses (undo g) (SameSlots g) v [.next i (v.slots i).nextOffset]
      (v.setSlot i (Slot.sealed v.sb.slotCrc i { v.slots i with nextOffset := nx })) := by
  refine Reverses.single fun x hx => hx.setSlot fun hi => ?_
  have hxi := hx.slots i hi
  have hcrcOn : x.sb.slotCrc = v.sb.slotCrc := hx.crcOn
  rw [setSlot_slots, Function.update_self] at hxi
  rw [hcrcOn]
  exact Slot.same_sealed_of_used (by simpa using hxi.status) (by simpa using hxi.payload) rfl hused
    hvalid

/-- The record of a payload write restores a valid used slot when the payload keeps its bytes from
the ninth on. -/
lemma sameSlots_reverses_payload {data : List UInt8} (hused : (v.slots i).status = statusUsed)
    (hvalid : (v.slots i).crcValid v.sb.slotCrc i = true)
    (hkeep : (Db.padded data).drop 8 = (v.slots i).payload.drop 8) :
    Reverses (undo g) (SameSlots g) v [.payload i ((v.slots i).payload.take 8)]
      (v.setSlot i (Slot.sealed v.sb.slotCrc i
        { v.slots i with payload := Db.padded data, status := statusUsed })) := by
  refine Reverses.single fun x hx => hx.setSlot fun hi => ?_
  have hxi := hx.slots i hi
  have hcrcOn : x.sb.slotCrc = v.sb.slotCrc := hx.crcOn
  rw [setSlot_slots, Function.update_self] at hxi
  have hpayload : (x.slots i).payload = Db.padded data := by simpa using hxi.payload
  rw [hcrcOn]
  refine Slot.same_sealed_of_used ?_ ?_ (by simpa using hxi.next) hused hvalid
  · rw [hused]
    simpa using hxi.status
  · show (v.slots i).payload.take 8 ++ (x.slots i).payload.drop 8 = _
    rw [hpayload, hkeep, List.take_append_drop]

/-- A field write that changes at most the checksum keeps the slot. -/
lemma sameSlots_of_resealed {c : ℕ} (hvalid : (v.slots i).crcValid v.sb.slotCrc i = true)
    (hlink : v.sb.slotCrc = true → efSlotStatusUsesLinkCrc (v.slots i).status = true →
      efSlotHeaderCrcCompute i (v.slots i) ≠ 0) :
    SameSlots g (v.setSlot i (Slot.sealed v.sb.slotCrc i { v.slots i with headerCrc := c })) v := by
  have hself : SameSlots g v (v.setSlot i (v.slots i)) := by
    rw [setSlot_self]
    exact SameSlots.refl g v
  refine hself.setSlot fun _ => ⟨by simp, by simp, by simp, ?_⟩
  rw [hvalid]
  refine Slot.crcValid_sealed fun hon hhas => ?_
  have hcomp : efSlotHeaderCrcCompute i { v.slots i with headerCrc := c } =
      efSlotHeaderCrcCompute i (v.slots i) := Slot.compute_congr rfl rfl rfl
  rw [hcomp]
  cases hl : efSlotStatusUsesLinkCrc (v.slots i).status with
  | false => exact Slot.compute_ne_zero_of_crcValid hvalid hon hhas hl
  | true => exact hlink hon hl

end View

/-! ### Steps and runs -/

namespace Db

variable {g : Geometry} {db : Db} {rs : List SlotRec}

/-- What holds in every state of the transaction. -/
structure Writing (g : Geometry) (db : Db) : Prop where
  ok : (db.view g).Ok g
  active : db.txnActive = true

/-- What one step of the transaction owes: the invariant again, and records that lead back. -/
def Undoes (g : Geometry) (db : Db) (rs : List SlotRec) (db' : Db) : Prop :=
  db'.Writing g ∧ ∃ rs', (db'.view g).LogIs g (rs ++ rs') ∧
    Reverses (View.undo g) (View.SameSlots g) (db.view g) rs' (db'.view g)

/-- A step that shows a view from which its records lead back. -/
lemma Writing.undoes {db' : Db} {w : View} (rs' : List SlotRec) (hinv : db.Writing g)
    (hs : db'.Shows g w (rs ++ rs')) (hcore : w.core = (db.view g).core) (hok : w.Ok g)
    (hrev : Reverses (View.undo g) (View.SameSlots g) (db.view g) rs' w) :
    db.Undoes g rs db' := by
  refine ⟨⟨hs.ok_iff.mpr hok, ?_⟩, rs', hs.log, ?_⟩
  · exact (congrArg Core.txnActive (hs.core.trans hcore)).trans hinv.active
  · rw [hs.view_eq]
    exact hrev.congr_right fun x hx => ⟨hx.crcOn, hx.slots⟩

/-- A step that changes no slot and leaves no record. -/
lemma Writing.undoes_of_view {db' : Db} (hinv : db.Writing g) (hlog : (db.view g).LogIs g rs)
    (hview : db'.view g = db.view g) : db.Undoes g rs db' := by
  refine hinv.undoes [] ?_ rfl hinv.ok (Reverses.refl _)
  rw [List.append_nil]
  exact shows_of_view hlog hview

/-- A written link is undone.
Source: `endfields.c`, `ef_set_next_offset` -/
lemma undoes_next (hinv : db.Writing g) (hlog : (db.view g).LogIs g rs) (i nx : ℕ)
    (hfit : (SlotWrite.next i nx).fits db) : db.Undoes g rs (db.efSetNextOffset i nx).2 := by
  have h := hinv.ok
  rcases efSetNextOffset_spec h hinv.active hlog i nx with
    ⟨-, hview⟩ | ⟨hok, hi, hused, hvalid, hshows⟩
  · exact hinv.undoes_of_view hlog hview
  have hroom : ((db.view g).slots i).nextOffset ≠ nx → rs.length < undoLogDefaultSlots := by
    intro hne
    have hr := (logRoom_iff h hlog _).mp (hfit hok)
    simp only [SlotWrite.records, slot_eq h.cap hi, if_neg hne] at hr
    omega
  refine hinv.undoes _ (hshows hroom) rfl (View.ok_setSlot.mpr h) ?_
  split_ifs with hsame
  · -- the link was there before: nothing is recorded and nothing changes
    intro x hx
    have hseal : View.SameSlots g ((db.view g).setSlot i (Slot.sealed (db.view g).sb.slotCrc i
        { (db.view g).slots i with nextOffset := nx })) (db.view g) := by
      rw [← hsame]
      refine View.sameSlots_of_resealed (c := ((db.view g).slots i).headerCrc) hvalid ?_
      intro _ hlink
      rw [hused] at hlink
      cases hlink
    exact hx.trans hseal
  · exact View.sameSlots_reverses_next nx hused hvalid

/-- A written status is undone.
Source: `endfields.c`, `ef_set_status` -/
lemma undoes_status (hinv : db.Writing g) (hlog : (db.view g).LogIs g rs) (i st : ℕ)
    (hfit : (SlotWrite.status i st).fits db) (hrec : (SlotWrite.status i st).recorded db) :
    db.Undoes g rs (db.efSetStatus i st).2 := by
  have h := hinv.ok
  have hmax : db.sb.maxSlots = g.n := h.maxSlots
  by_cases hfree : st = statusFree
  · subst hfree
    exact hinv.undoes_of_view hlog (efSetStatus_of_not_accepts h (hrec.1 rfl))
  by_cases hclaim : i < g.n ∧ st = statusUsed ∧ ((db.view g).slots i).status = statusFree
  · obtain ⟨hi, rfl, hst⟩ := hclaim
    refine hinv.undoes_of_view hlog (efSetStatus_of_not_onFreeList h hi hst ?_)
    exact hrec.2 rfl (by omega) (by rw [slot_eq h.cap hi]; exact hst)
  rcases efSetStatus_spec h hinv.active hlog i st hfree
    (fun hi hu hst => hclaim ⟨hi, hu, hst⟩) with ⟨hview, -⟩ | ⟨hok, hi, hne, hshows⟩
  · exact hinv.undoes_of_view hlog hview
  have hroom : rs.length < undoLogDefaultSlots := by
    have hr := (logRoom_iff h hlog _).mp (hfit hok)
    simp only [SlotWrite.records, slot_eq h.cap hi, if_neg hfree] at hr
    rw [if_neg] at hr
    · omega
    · rintro ⟨hu, hst | hst⟩
      · exact hclaim ⟨hi, hu, hst⟩
      · exact hne ⟨hu, hst⟩
  exact hinv.undoes _ (hshows hroom) rfl (View.ok_setSlot.mpr h) (View.sameSlots_reverses_status st)

/-- A written payload is undone, where the log has all of it.
Source: `endfields.c`, `ef_write_payload` -/
lemma undoes_payload (hinv : db.Writing g) (hlog : (db.view g).LogIs g rs) (i : ℕ)
    (data : List UInt8) (hfit : (SlotWrite.payload i data).fits db)
    (hrec : (SlotWrite.payload i data).recorded db) :
    db.Undoes g rs (db.efWritePayload i data).2 := by
  have h := hinv.ok
  have hmax : db.sb.maxSlots = g.n := h.maxSlots
  by_cases hclaim : i < g.n ∧ ((db.view g).slots i).status = statusFree
  · obtain ⟨hi, hst⟩ := hclaim
    by_cases hlen : data.length ≤ 48
    · refine hinv.undoes_of_view hlog (efWritePayload_of_not_onFreeList h hi hst ?_)
      exact (hrec (by omega) hlen).1 (by rw [slot_eq h.cap hi]; exact hst)
    · refine hinv.undoes_of_view hlog ?_
      unfold efWritePayload
      rw [efDbRequireWrite_eq h.writable]
      simp only
      rw [if_pos (by omega)]
      rfl
  rcases efWritePayload_spec h hinv.active hlog i data
    (fun hi hst => hclaim ⟨hi, hst⟩) with ⟨-, hview⟩ | ⟨hok, hi, hlen, hvalid, hshows⟩
  · exact hinv.undoes_of_view hlog hview
  have hroom : rs.length < undoLogDefaultSlots := by
    have hr := (logRoom_iff h hlog _).mp (hfit hok)
    simp only [SlotWrite.records] at hr
    omega
  have hkeep := (hrec (by omega) hlen).2
  rw [slot_eq h.cap hi] at hkeep
  obtain ⟨hused, hkeep⟩ := hkeep (fun hst => hclaim ⟨hi, hst⟩) hvalid
  exact hinv.undoes _ (hshows hroom) rfl (View.ok_setSlot.mpr h)
    (View.sameSlots_reverses_payload hused hvalid hkeep)

/-- A written field is undone, where the log has it.
Source: `endfields.c`, `ef_write_field` -/
lemma undoes_field (hinv : db.Writing g) (hlog : (db.view g).LogIs g rs) (i off : ℕ)
    (value : UInt8) (hrec : (SlotWrite.field i off value).recorded db) :
    db.Undoes g rs (db.efWriteField i off value).2 := by
  have h := hinv.ok
  have hmax : db.sb.maxSlots = g.n := h.maxSlots
  have hrec' : i < g.n → off < 64 →
      ((db.view g).slots i).crcValid (db.view g).sb.slotCrc i = true →
      off ≠ 0 ∧ ((4 ≤ off ∧ off < 8) ∨ db.mem (db.slotPtr i + off) = value) ∧
      ((db.view g).sb.slotCrc = true →
        efSlotStatusUsesLinkCrc ((db.view g).slots i).status = true →
        efSlotHeaderCrcCompute i ((db.view g).slots i) ≠ 0) := by
    intro hi hoff hvalid
    rw [← slot_eq h.cap hi] at hvalid ⊢
    exact hrec (by omega) hoff hvalid
  rcases efWriteField_spec h i fun hi hoff hvalid =>
      ⟨(hrec' hi hoff hvalid).1, (hrec' hi hoff hvalid).2.1⟩ with
    ⟨-, hview⟩ | ⟨-, hi, hoff, hvalid, c, hview⟩
  · exact hinv.undoes_of_view hlog hview
  have hlink := (hrec' hi hoff hvalid).2.2
  have hshows : (db.efWriteField i off value).2.Shows g ((db.view g).setSlot i
      (Slot.sealed (db.view g).sb.slotCrc i { (db.view g).slots i with headerCrc := c }))
      (rs ++ []) := by
    rw [List.append_nil]
    exact (shows_of_log hlog).of_view hview
  exact hinv.undoes [] hshows rfl (View.ok_setSlot.mpr h)
    fun x hx => hx.trans (View.sameSlots_of_resealed hvalid hlink)

/-- A recorded write reverses with the record it leaves. -/
lemma slotWrite_reverses (op : SlotWrite) (rs : List SlotRec) (hinv : db.Writing g)
    (hlog : (db.view g).LogIs g rs) (hgood : op.fits db ∧ op.recorded db) :
    db.Undoes g rs (op.run db) := by
  cases op with
  | payload i data => exact undoes_payload hinv hlog i data hgood.1 hgood.2
  | field i off value => exact undoes_field hinv hlog i off value hgood.2
  | next i nx => exact undoes_next hinv hlog i nx hgood.1
  | status i st => exact undoes_status hinv hlog i st hgood.1 hgood.2

/-! ### The abort -/

/-- **Recorded writes are undone.** For every handle with the layout an open gives it and every
transaction of recorded slot writes whose records fit the log, the abort gives every slot the
status, the payload and the link it had at the begin, and `ef_get_slot` accepts the same slots. -/
theorem abort_restores_slots (hl : db.Layout) (hbegin : db.efTxnBegin.1 = .ok)
    (ops : List SlotWrite) (hfit : GoodRun SlotWrite.run SlotWrite.fits ops db.efTxnBegin.2)
    (hrec : GoodRun SlotWrite.run SlotWrite.recorded ops db.efTxnBegin.2) :
    let aborted := (runAll SlotWrite.run ops db.efTxnBegin.2).efTxnAbort
    aborted.1 = .ok ∧
      (∀ i, i < db.sb.maxSlots →
        (aborted.2.slot i).status = (db.slot i).status ∧
        (aborted.2.slot i).payload = (db.slot i).payload ∧
        (aborted.2.slot i).nextOffset = (db.slot i).nextOffset) ∧
      ∀ i, (aborted.2.efGetSlot i).1 = (db.efGetSlot i).1 := by
  obtain ⟨g, h⟩ : ∃ g, (db.view g).Ok g := ⟨_, hl.ok⟩
  have hmax : db.sb.maxSlots = g.n := h.maxSlots
  obtain ⟨-, seg, hseg, hview₁⟩ := efTxnBegin_of_ok h hbegin
  set db₁ := db.efTxnBegin.2
  have hinv₁ : db₁.Writing g := by
    refine ⟨?_, congrArg (fun v => v.core.txnActive) hview₁⟩
    rw [hview₁]
    exact (View.ok_tick.mpr h).begun
  have hlog₁ : (db₁.view g).LogIs g [] := View.LogIs.nil (by rw [hview₁]; exact hseg)
  obtain ⟨db₃, y, seg₃, habort, hoky, hback, hseg₃, hview₃⟩ := abort_of_run SlotWrite.run _
    (Writing g) (View.SameSlots g) (View.SameSlots.refl g) (fun _ hs => ⟨hs.ok, hs.active⟩)
    (fun op _ rs hs hlog hgood => slotWrite_reverses op rs hs hlog hgood) hinv₁ hlog₁ ops
    (hfit.and hrec)
  have hok₃ : (db₃.view g).Ok g := by
    rw [hview₃]
    exact hoky.ended
  have hsame : View.SameSlots g (db₃.view g) (db.view g) := by
    rw [hview₁] at hback
    rw [hview₃]
    exact ⟨hback.crcOn, hback.slots⟩
  simp only [habort]
  refine ⟨trivial, ?_, ?_⟩
  · intro i hi
    have hs := hsame.slots i (by omega)
    rw [slot_eq h.cap (by omega), slot_eq hok₃.cap (by omega)]
    exact ⟨hs.status, hs.payload, hs.next⟩
  · intro i
    by_cases hi : i < g.n
    · rw [efGetSlot_of_lt h.toBound hi, efGetSlot_of_lt hok₃.toBound hi, hsame.crcOn,
          (hsame.slots i hi).valid]
      split_ifs <;> rfl
    · rw [efGetSlot_of_ge h.toBound (by omega), efGetSlot_of_ge hok₃.toBound (by omega)]

/-- A link, a status and a payload of eight bytes, written on a used slot. -/
theorem abort_restores_slots_of_two :
    let db := (newMemory 2 0).efAllocSlot.2.2
    let ops := [SlotWrite.payload 0 [1, 2, 3, 4, 5, 6, 7, 8], .next 0 128, .status 0 2]
    let aborted := (runAll SlotWrite.run ops db.efTxnBegin.2).efTxnAbort
    aborted.1 = .ok ∧
      (∀ i, i < db.sb.maxSlots →
        (aborted.2.slot i).status = (db.slot i).status ∧
        (aborted.2.slot i).payload = (db.slot i).payload ∧
        (aborted.2.slot i).nextOffset = (db.slot i).nextOffset) ∧
      ∀ i, (aborted.2.efGetSlot i).1 = (db.efGetSlot i).1 :=
  abort_restores_slots (by decide +kernel) (by decide +kernel) _
    ⟨by decide +kernel, by decide +kernel, by decide +kernel, trivial⟩
    ⟨by decide +kernel, by decide +kernel, by decide +kernel, trivial⟩

/-- A payload of nine bytes is not undone: the ninth byte stays. -/
theorem abort_keeps_ninth_byte :
    let db := (newMemory 2 0).efAllocSlot.2.2
    let op := SlotWrite.payload 0 [1, 2, 3, 4, 5, 6, 7, 8, 9]
    let aborted := (runAll SlotWrite.run [op] db.efTxnBegin.2).efTxnAbort
    db.Layout ∧ db.efTxnBegin.1 = .ok ∧ op.fits db.efTxnBegin.2 ∧
      (op.call db.efTxnBegin.2).1 = .ok ∧ aborted.1 = .ok ∧
      (db.slot 0).payload = List.replicate 48 0 ∧
      ¬ (aborted.2.slot 0).payload = (db.slot 0).payload := by
  decide +kernel

end Db

end Endfields.Model
