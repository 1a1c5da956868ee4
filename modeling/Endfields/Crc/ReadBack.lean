import Endfields.Crc.Burst
import Endfields.Pool.Refusal

/-!
# Reading back what was written

A write seals the slot with the CRC of what it holds, and the validator takes a stored CRC of `0`
for one that was never set. One payload in four billion has the CRC `0`.

* `Db.ReadsBack`: `ef_get_slot` gives the slot, in use, with the data and zeros.
* `efClaimSlot_ready`: a claimed slot has no link, whatever the free list looks like.
* **`efWritePayload_readsBack_iff`**: what a successful write leaves reads back, exactly if the CRC
  of the slot is not `0`.
* `efWritePayload_unreadable`: four bytes that are written and cannot be read.
-/

namespace Endfields.Model

open Endfields.Lib

/-- The CRC-32 of a used slot: its id, its status, its payload and its link.
Source: `endfields.c`, `ef_slot_header_crc_compute_full` -/
def usedCrc (slotId : ℕ) (data : List UInt8) (next : ℕ) : ℕ :=
  crc32Feed 0xFFFFFFFF (leBytes 8 slotId ++ leBytes 4 statusUsed ++ Db.padded data ++ leBytes 8 next) ^^^
    0xFFFFFFFF

/-- It is what the code computes of the slot. -/
lemma efSlotHeaderCrcCompute_used (slotId : ℕ) {s : Slot} {data : List UInt8}
    (hstatus : s.status = statusUsed) (hpayload : s.payload = Db.padded data) :
    efSlotHeaderCrcCompute slotId s = usedCrc slotId data s.nextOffset := by
  have hinit : 0xFFFFFFFF < 2 ^ 32 := by decide
  have hlink : efSlotStatusUsesLinkCrc statusUsed = false := rfl
  have hfirst : efCrc32Update 0xFFFFFFFF (leBytes 8 slotId) =
      crc32Feed 0xFFFFFFFF (leBytes 8 slotId) := efCrc32UpdateSlice4_eq_feed hinit _
  unfold efSlotHeaderCrcCompute
  rw [hstatus, hlink, if_neg Bool.false_ne_true]
  unfold efSlotHeaderCrcComputeFull usedCrc
  dsimp only
  rw [hfirst, hstatus, hpayload, efCrc32Update_append hinit, efCrc32Update_append hinit,
    efCrc32Update_append hinit]

namespace Db

variable {g : Geometry} {db db₁ : Db} {i next : ℕ} {data : List UInt8}

/-- `ef_get_slot` gives the slot in use, with the data and zeros behind them. -/
def ReadsBack (db : Db) (i : ℕ) (data : List UInt8) : Prop :=
  ∃ p, (db.efGetSlot i).1 = some p ∧ (db.slotAt p).status = statusUsed ∧
    (db.slotAt p).payload = padded data

/-- The link that a write leaves: a claimed slot has none. -/
def linkAfterWrite (db : Db) (i : ℕ) : ℕ :=
  if (db.slot i).status = statusFree then 0 else (db.slot i).nextOffset

/-! ### Claims -/

/-- The handle shows the view `v`, with slot `i` ready for its payload and the link `next`. -/
structure WriteReady (g : Geometry) (v : View) (i next : ℕ) (db₁ : Db) : Prop where
  core : (db₁.view g).core = v.core
  slotCrc : (db₁.view g).sb.slotCrc = v.sb.slotCrc
  schema : (db₁.view g).sb.schemaVersion = v.sb.schemaVersion
  maxSlots : (db₁.view g).sb.maxSlots = v.sb.maxSlots
  link : ((db₁.view g).slots i).nextOffset = next

lemma WriteReady.bound (hr : WriteReady g (db.view g) i next db₁) (h : (db.view g).Bound g) :
    (db₁.view g).Bound g :=
  h.congr (congrArg Core.hashCapacity hr.core) (congrArg Core.fileSize hr.core)
    (congrArg Core.readonly hr.core) hr.maxSlots

/-- The search takes the link off the slot when it finds the slot. -/
lemma unlinkFreeSlotLoop_ready (h : (db.view g).Bound g) (hi : i < g.n) (guard off : ℕ)
    (hok : (db.unlinkFreeSlotLoop (g.ptr i) (g.ptr i) guard (db.efSlotAtOffset off)).1 = .ok) :
    WriteReady g (db.view g) i 0
      (db.unlinkFreeSlotLoop (g.ptr i) (g.ptr i) guard (db.efSlotAtOffset off)).2 := by
  induction guard generalizing off with
  | zero => cases hok
  | succ guard ih =>
      rw [efSlotAtOffset_eq h] at hok ⊢
      rcases hc : g.idOf off with _ | c
      · rw [hc] at hok
        cases hok
      rw [hc] at hok
      have hcn : c < g.n := ((g.idOf_eq_some_iff _ _).mp hc).1
      unfold unlinkFreeSlotLoop at hok ⊢
      by_cases hfound : (db.slot c).nextOffset = g.ptr i
      · rw [if_pos hfound, slotPtr_eq h.cap]
        dsimp only
        have hview : ((db.setNext (g.ptr c) (db.slotAt (g.ptr i)).nextOffset).setNext
            (g.ptr i) 0).view g =
            ((db.view g).setSlot c { (db.view g).slots c with
              nextOffset := (db.slotAt (g.ptr i)).nextOffset % u64 }).setSlot i
              { (((db.view g).setSlot c { (db.view g).slots c with
                nextOffset := (db.slotAt (g.ptr i)).nextOffset % u64 }).slots i) with
                nextOffset := 0 % u64 } := by
          rw [view_setNext hi, view_setNext hcn]
        refine ⟨?_, ?_, ?_, ?_, ?_⟩
        · rw [hview]
          rfl
        · rw [hview]
          rfl
        · rw [hview]
          rfl
        · rw [hview]
          rfl
        · rw [hview, View.setSlot_slots, Function.update_self]
          rfl
      · rw [if_neg hfound] at hok ⊢
        exact ih _ hok

lemma efUnlinkFreeSlot_ready (h : (db.view g).Bound g) (hi : i < g.n)
    (hfree : ((db.view g).slots i).status = statusFree) (hok : (db.efUnlinkFreeSlot i).1 = .ok) :
    WriteReady g (db.view g) i 0 (db.efUnlinkFreeSlot i).2 := by
  have hslot : (db.setError .ok).slotAt (g.ptr i) = (db.view g).slots i := slotAt_eq db hi
  have hb : ((db.setError .ok).view g).Bound g := h
  unfold efUnlinkFreeSlot at hok ⊢
  rw [efPeekSlot_of_lt h hi] at hok ⊢
  simp only [hslot, hfree, ne_eq, not_true, if_false] at hok ⊢
  have hoff : (db.setError .ok).efSlotToOffset i = g.ptr i := efSlotToOffset_of_lt hb hi
  rw [hoff] at hok ⊢
  by_cases hhead : (db.setError .ok).sb.freeListHead = g.ptr i
  · rw [if_pos hhead]
    dsimp only
    have hview : (((db.setError .ok).setFreeListHead ((db.view g).slots i).nextOffset).setNext
        (g.ptr i) 0).view g = ((db.view g).setSb ((db.view g).sb.setFreeListHead
          (((db.view g).slots i).nextOffset % u64))).setSlot i
            { (db.view g).slots i with nextOffset := 0 % u64 } := by
      rw [view_setNext hi, view_setFreeListHead]
      rfl
    refine ⟨?_, ?_, ?_, ?_, ?_⟩
    · rw [hview]
      rfl
    · rw [hview]
      rfl
    · rw [hview]
      rfl
    · rw [hview]
      rfl
    · rw [hview, View.setSlot_slots, Function.update_self]
      rfl
  · rw [if_neg hhead] at hok ⊢
    exact unlinkFreeSlotLoop_ready hb hi _ _ hok

/-- **A claimed slot has no link.** -/
lemma efClaimSlot_ready (h : (db.view g).Bound g) (hi : i < g.n)
    (hfree : ((db.view g).slots i).status = statusFree) (hok : (db.efClaimSlot i).1 = .ok) :
    WriteReady g (db.view g) i 0 (db.efClaimSlot i).2 := by
  have hb : ((db.setError .ok).view g).Bound g := h
  have hslot : (db.setError .ok).slotAt (g.ptr i) = (db.view g).slots i := slotAt_eq db hi
  rcases hun : (db.setError .ok).efUnlinkFreeSlot i with ⟨e, db₁⟩
  have hunok : e = .ok := by
    unfold efClaimSlot at hok
    rw [efPeekSlot_of_lt h hi] at hok
    simp only [hslot, hfree, hun] at hok
    cases e <;> first | rfl | exact hok
  rw [hunok] at hun
  have hready := efUnlinkFreeSlot_ready hb hi hfree (congrArg Prod.fst hun)
  rw [hun] at hready
  obtain ⟨-, hview⟩ := efClaimSlot_of_unlinked h hi hfree hun
  refine ⟨?_, ?_, ?_, ?_, ?_⟩
  · rw [hview]
    exact hready.core
  · rw [hview]
    exact hready.slotCrc
  · rw [hview]
    exact hready.schema
  · rw [hview]
    exact hready.maxSlots
  · rw [hview, View.setSlot_slots, Function.update_self, Slot.sealed_nextOffset]
    exact hready.link

/-! ### The write -/

/-- Payload, status and checksum, on a slot that is ready. -/
lemma readsBack_of_ready (h : (db.view g).Bound g) (hs : (db.view g).sb.schemaVersion = schemaVersion)
    (hi : i < g.n) (hlen : data.length ≤ 48) (hr : WriteReady g (db.view g) i next db₁) :
    ((((db₁.fillPayload (g.ptr i) data).setStatus (g.ptr i) statusUsed).efSlotHeaderCrcStore i
      (g.ptr i)).setError .ok).ReadsBack i data ↔
        ((db.view g).sb.slotCrc = true → usedCrc i data next ≠ 0) := by
  obtain ⟨s, hstatus, hpayload, hnext, hview⟩ : ∃ s : Slot, s.status = statusUsed ∧
      s.payload = padded data ∧ s.nextOffset = next ∧
      ((((db₁.fillPayload (g.ptr i) data).setStatus (g.ptr i) statusUsed).efSlotHeaderCrcStore i
        (g.ptr i)).setError .ok).view g =
          (db₁.view g).setSlot i (s.sealed (db₁.view g).sb.slotCrc i) := by
    refine ⟨{ (db₁.view g).slots i with payload := padded data, status := statusUsed }, rfl, rfl,
      hr.link, ?_⟩
    rw [view_setError, view_efSlotHeaderCrcStore hi, view_setStatus hi,
      view_fillPayload (hr.schema.trans hs) hi hlen]
    simp
  have hb₁ := hr.bound h
  generalize (((db₁.fillPayload (g.ptr i) data).setStatus (g.ptr i) statusUsed).efSlotHeaderCrcStore i
    (g.ptr i)).setError .ok = db₂ at hview ⊢
  have hb₂ : (db₂.view g).Bound g := by
    rw [hview, View.bound_setSlot]
    exact hb₁
  have hslot : (db₂.view g).slots i = s.sealed (db.view g).sb.slotCrc i := by
    rw [hview, View.setSlot_slots, Function.update_self, hr.slotCrc]
  have hcrcOn : (db₂.view g).sb.slotCrc = (db.view g).sb.slotCrc := by
    rw [hview]
    exact hr.slotCrc
  have hhas : efSlotStatusHasCrc s.status = true := by
    rw [hstatus]
    rfl
  have hcompute : efSlotHeaderCrcCompute i s = usedCrc i data next := by
    rw [efSlotHeaderCrcCompute_used i hstatus hpayload, hnext]
  -- the check of the slot that was sealed
  have hvalid : ((db₂.view g).slots i).crcValid (db₂.view g).sb.slotCrc i = true ↔
      ((db.view g).sb.slotCrc = true → usedCrc i data next ≠ 0) := by
    rw [hslot, hcrcOn]
    rcases (db.view g).sb.slotCrc
    · exact ⟨fun _ hon => absurd hon Bool.false_ne_true, fun _ => rfl⟩
    · have hiff := @Slot.crcValid_sealed_eq_false_iff i s
      rw [forall_prop_of_true rfl, ← Bool.not_eq_false, hiff, hcompute]
      exact not_congr (and_iff_right hhas)
  rw [← hvalid]
  unfold ReadsBack
  rw [efGetSlot_of_lt hb₂ hi]
  constructor
  · rintro ⟨p, hp, -, -⟩
    by_contra hno
    rw [if_neg hno] at hp
    cases hp
  · intro hyes
    rw [if_pos hyes]
    refine ⟨g.ptr i, rfl, ?_, ?_⟩
    · rw [slotAt_eq db₂ hi, hslot, Slot.sealed_status]
      exact hstatus
    · rw [slotAt_eq db₂ hi, hslot, Slot.sealed_payload]
      exact hpayload

/-- A record behind the slots leaves the slot ready. -/
lemma WriteReady.record (hr : WriteReady g (db.view g) i next db₁) (h : (db.view g).Bound g)
    (hseg : db.txnActive = true → g.undoBase ≤ db.undoLogBase) (kind : UndoKind) (target aux : ℕ)
    (before : List UInt8) :
    WriteReady g (db.view g) i next (db₁.efUndoRecordAppend kind target aux before).2 := by
  have hcore := hr.core
  have hseg₁ : db₁.txnActive = true → g.undoBase ≤ db₁.undoLogBase := by
    rw [show db₁.txnActive = db.txnActive from congrArg Core.txnActive hcore,
      show db₁.undoLogBase = db.undoLogBase from congrArg Core.undoLogBase hcore]
    exact hseg
  obtain ⟨seg, hview, -⟩ := efUndoRecordAppend_behind hseg₁ (hr.bound h).cap kind target aux before
  refine ⟨?_, ?_, ?_, ?_, ?_⟩
  · rw [hview]
    exact hcore
  · rw [hview]
    exact hr.slotCrc
  · rw [hview]
    exact hr.schema
  · rw [hview]
    exact hr.maxSlots
  · rw [hview]
    exact hr.link

lemma efWritePayload_readsBack (h : (db.view g).Bound g)
    (hs : (db.view g).sb.schemaVersion = schemaVersion)
    (hseg : db.txnActive = true → g.undoBase ≤ db.undoLogBase) (hi : i < g.n)
    (hst : ((db.view g).slots i).status = statusFree ∨ (((db.view g).slots i).status = statusUsed ∧
      db.efSlotHeaderCrcValid i ((db.view g).slots i) = true))
    (hok : (db.efWritePayload i data).1 = .ok) :
    (db.efWritePayload i data).2.ReadsBack i data ↔ ((db.view g).sb.slotCrc = true →
      usedCrc i data (if ((db.view g).slots i).status = statusFree then 0
        else ((db.view g).slots i).nextOffset) ≠ 0) := by
  have hb : ((db.setError .ok).view g).Bound g := h
  have hslot : (db.setError .ok).slotAt (g.ptr i) = (db.view g).slots i := slotAt_eq db hi
  have hvalid : (db.setError .ok).efSlotHeaderCrcValid i ((db.view g).slots i) =
      db.efSlotHeaderCrcValid i ((db.view g).slots i) := rfl
  unfold efWritePayload at hok ⊢
  rw [efDbRequireWrite_eq h.writable] at hok ⊢
  simp only at hok ⊢
  by_cases hlen : 48 < data.length
  · rw [if_pos hlen] at hok
    cases hok
  rw [if_neg hlen, efPayloadCapacity_eq hs, if_neg hlen, efPeekSlot_of_lt h hi] at hok ⊢
  simp only [hslot, hvalid] at hok ⊢
  have hle : data.length ≤ 48 := Nat.not_lt.1 hlen
  rcases hst with hfree | ⟨hused, hcrc⟩
  · -- the slot is claimed
    rw [if_pos hfree] at hok ⊢
    rw [if_pos hfree]
    rcases hcl : (db.setError .ok).efClaimSlot i with ⟨e, db₁⟩
    rw [hcl] at hok
    have he : e = .ok := by cases e <;> first | rfl | exact hok
    subst he
    have hready := efClaimSlot_ready hb hi hfree (congrArg Prod.fst hcl)
    rw [hcl] at hready
    have hready : WriteReady g (db.view g) i 0 db₁ := hready
    simp only [hfree, ne_eq, not_true, if_false]
    refine readsBack_of_ready h hs hi hle ?_
    split_ifs
    · exact hready.record h hseg _ _ _ _
    · exact hready
  · -- the slot is in use, and its checksum is right
    have hne : ((db.view g).slots i).status ≠ statusFree := by
      rw [hused]
      decide
    have hready : WriteReady g (db.view g) i ((db.view g).slots i).nextOffset (db.setError .ok) :=
      ⟨rfl, rfl, rfl, rfl, rfl⟩
    rw [if_neg hne, if_neg (by rw [hcrc]; exact fun hbad => absurd hbad.2 (by decide))]
    rw [if_neg hne]
    simp only [hne, ne_eq, not_false_eq_true, if_true]
    refine readsBack_of_ready h hs hi hle ?_
    split_ifs
    · exact hready.record h hseg _ _ _ _
    · exact hready

/-- **What a successful write leaves reads back**, exactly if the CRC of the slot is not `0`, which
the validator takes for a checksum that was never set. -/
theorem efWritePayload_readsBack_iff (hm : db.Mapped) (hs : db.sb.schemaVersion = schemaVersion)
    (hseg : db.txnActive = true → db.slotsBase + 64 * db.sb.maxSlots ≤ db.undoLogBase)
    (hi : i < db.sb.maxSlots)
    (hst : (db.slot i).status = statusFree ∨ ((db.slot i).status = statusUsed ∧
      db.efSlotHeaderCrcValid i (db.slot i) = true))
    (hok : (db.efWritePayload i data).1 = .ok) :
    (db.efWritePayload i data).2.ReadsBack i data ↔
      (db.sb.slotCrc = true → usedCrc i data (db.linkAfterWrite i) ≠ 0) := by
  have hw : db.readonly = false := by
    by_contra hro
    unfold efWritePayload efDbRequireWrite at hok
    rw [Bool.not_eq_false] at hro
    rw [if_pos hro] at hok
    cases hok
  obtain ⟨g, h⟩ := hm.geometry hw
  have hn : db.sb.maxSlots = g.n := h.maxSlots
  have hbase : db.slotsBase + 64 * db.sb.maxSlots = g.undoBase := by
    rw [slotsBase_eq_base h.cap, hn]
    rfl
  rw [hbase] at hseg
  rw [hn] at hi
  unfold linkAfterWrite
  rw [slot_eq h.cap hi] at hst ⊢
  exact efWritePayload_readsBack h hs hseg hi hst hok

/-- Three bytes written to a new database. -/
theorem efWritePayload_readsBack_of_new :
    ((newMemory 1 0).efWritePayload 0 [1, 2, 3]).2.ReadsBack 0 [1, 2, 3] := by
  obtain ⟨hm, hs, hidle, hfree, hok, hcrc⟩ : (newMemory 1 0).Mapped ∧
      (newMemory 1 0).sb.schemaVersion = schemaVersion ∧ (newMemory 1 0).txnActive = false ∧
      ((newMemory 1 0).slot 0).status = statusFree ∧
      ((newMemory 1 0).efWritePayload 0 [1, 2, 3]).1 = .ok ∧
      usedCrc 0 [1, 2, 3] ((newMemory 1 0).linkAfterWrite 0) ≠ 0 := by decide +kernel
  refine (efWritePayload_readsBack_iff hm hs ?_ (by decide +kernel) (.inl hfree) hok).2 fun _ => hcrc
  intro hact
  rw [hidle] at hact
  cases hact

/-- Four bytes that give the slot the CRC `0`: the write succeeds, and the slot cannot be read. -/
theorem efWritePayload_unreadable :
    ((newMemory 1 0).slot 0).status = statusFree ∧
      ((newMemory 1 0).efWritePayload 0 [123, 125, 87, 246]).1 = .ok ∧
      (((newMemory 1 0).efWritePayload 0 [123, 125, 87, 246]).2.efGetSlot 0).1 = none := by
  decide +kernel

end Db

end Endfields.Model
