import Endfields.Resize.Free
import Endfields.Spec.Rebuild

/-!
# Upgrading the payloads

`ef_upgrade` converts the slots of the old layout, whose payload starts right behind the status, to
the layout with a checksum in between. It runs on every image that misses a checksum flag, also
where the slots have the new layout already.

* `Slot.upgraded`: the conversion of one slot.
* `Db.payloadHead`: the first 48 bytes at the payload pointer of a slot.
* **`Db.efUpgrade_keeps_iff`**: a successful upgrade keeps the payloads of the used slots exactly if
  the slots had the old layout, or the payload of each repeats the bytes of its checksum field; the
  slots are accepted in either case.
-/

namespace Endfields.Model

open Endfields.Lib

/-- The slot with the bytes behind its status taken for the payload.
Source: `ef_grow.c`, `ef_upgrade_slots_v1_to_v2` -/
def Slot.upgraded (crcOn : Bool) (i : ℕ) (s : Slot) : Slot :=
  if s.status = statusUsed then
    Slot.sealed crcOn i
      { s with headerCrc := 0, payload := (leBytes 4 s.headerCrc ++ s.payload).take 48 }
  else if s.status = statusFree then { s with headerCrc := 0 }
  else s

lemma Slot.upgraded_status (crcOn : Bool) (i : ℕ) (s : Slot) : (s.upgraded crcOn i).status =
    s.status := by
  unfold upgraded
  split_ifs
  · exact sealed_status ..
  · rfl
  · rfl

/-- The first `k` slots converted. -/
@[simps] def View.upgraded (k : ℕ) (v : View) : View :=
  { v with slots := fun i => if i < k then (v.slots i).upgraded v.sb.slotCrc i else v.slots i }

namespace Db

/-- The first 48 bytes of a slot's payload.
Source: `endfields.c`, `ef_slot_payload_ptr` -/
def payloadHead (db : Db) (i : ℕ) : List UInt8 :=
  readBytes db.mem (db.efSlotPayloadPtr (db.slotPtr i)) 48

/-- Every used slot has the payload that it had, and is accepted unless its checksum is computed as
zero. -/
structure UpgradeKeeps (db db' : Db) : Prop where
  payload : ∀ i, i < db.sb.maxSlots → (db.slot i).status = statusUsed →
    db'.payloadHead i = db.payloadHead i
  accepted : ∀ i, i < db.sb.maxSlots → (db.slot i).status = statusUsed →
    efSlotHeaderCrcCompute i (db'.slot i) ≠ 0 → (db'.efGetSlot i).1 ≠ none

variable {g : Geometry} {db db' : Db} {i k : ℕ}

/-! ### The loop -/

/-- The bytes from the checksum field on. -/
lemma readBytes_slot (db : Db) (hi : i < g.n) : readBytes db.mem (g.ptr i + 4) 52 =
    leBytes 4 ((db.view g).slots i).headerCrc ++ ((db.view g).slots i).payload := by
  rw [← slotAt_eq db hi]
  show _ = leBytes 4 (load db.mem (g.ptr i + 4) 4) ++ readBytes db.mem (g.ptr i + 8) 48
  rw [leBytes_load]
  exact readBytes_add db.mem (g.ptr i + 4) 4 48

/-- One round of the loop. -/
lemma view_upgradeSlot (hcap : db.hashCapacity = g.cap) (hi : i < g.n) :
    (db.upgradeSlot i).view g =
      (db.view g).setSlot i (((db.view g).slots i).upgraded (db.view g).sb.slotCrc i) := by
  unfold upgradeSlot Slot.upgraded
  simp only
  rw [slot_eq hcap hi, slotPtr_eq hcap, readBytes_slot db hi]
  by_cases hused : ((db.view g).slots i).status = statusUsed
  · rw [if_pos hused, if_pos hused]
    generalize hbytes : (leBytes 4 ((db.view g).slots i).headerCrc ++
      ((db.view g).slots i).payload).take 48 = bytes
    have hlen : bytes.length = 48 := by
      rw [← hbytes, List.length_take, List.length_append, length_leBytes, view_length_payload db hi]
      rfl
    have hcopy := view_copyIn_payload (db.zero (g.ptr i + 8) 48) hi 0 bytes (by omega)
    rw [Nat.add_zero, view_zero_payload hi] at hcopy
    rw [view_efSlotHeaderCrcStore hi, view_setHeaderCrc hi, hcopy]
    simp [hlen]
  · rw [if_neg hused, if_neg hused]
    by_cases hfree : ((db.view g).slots i).status = statusFree
    · rw [if_pos hfree, if_pos hfree, view_setHeaderCrc hi]
      rfl
    · rw [if_neg hfree, if_neg hfree, View.setSlot_self]

/-- **The loop** converts the slots one by one. -/
lemma view_upgradeSlotsLoop (hcap : db.hashCapacity = g.cap) (hk : k ≤ g.n) :
    (db.upgradeSlotsLoop k).view g = (db.view g).upgraded k := by
  induction k with
  | zero => rfl
  | succ k ih =>
      have hview := ih (by omega)
      have hcap' : (db.upgradeSlotsLoop k).hashCapacity = g.cap :=
        (congrArg (fun v => v.core.hashCapacity) hview).trans hcap
      unfold upgradeSlotsLoop
      rw [view_upgradeSlot hcap' (by omega), hview]
      refine View.ext rfl rfl (funext fun j => ?_) rfl
      rw [View.setSlot_slots, View.upgraded_slots, View.upgraded_slots, View.upgraded_sb]
      by_cases hj : j = k
      · subst hj
        rw [Function.update_self, if_neg (lt_irrefl j), if_pos (Nat.lt_succ_self j)]
      · rw [Function.update_of_ne hj]
        refine if_congr ?_ rfl rfl
        omega

/-! ### The upgrade -/

/-- The payload starts at the checksum field in the old layout, and behind it in the new one. -/
lemma payloadHead_eq (hcap : db.hashCapacity = g.cap) (hi : i < g.n) :
    db.payloadHead i = if db.legacyPayload = true then
      (leBytes 4 ((db.view g).slots i).headerCrc ++ ((db.view g).slots i).payload).take 48
      else ((db.view g).slots i).payload := by
  unfold payloadHead efSlotPayloadPtr
  rw [slotPtr_eq hcap]
  split_ifs
  · rw [← readBytes_slot db hi, readBytes_take _ _ _ _ (by norm_num)]
  · rw [← slotAt_eq db hi]
    rfl

/-- A store into the superblock shows there only. -/
lemma view_store_low {a w v : ℕ} (h : a + w ≤ 64) :
    (db.store a w v).view g = (db.view g).setSb (db.store a w v).sb := by
  unfold store
  rw [view_withMem, Geometry.slots_store_low h, Geometry.segment_store_low h]
  rfl

/-- The superblock is given the schema and the flags of an image with checksums. -/
lemma view_setSchema (db : Db) (g : Geometry) :
    ∃ sb, ((db.setSchemaVersion schemaVersion).setFlags 3).view g = (db.view g).setSb sb ∧
      sb.maxSlots = db.sb.maxSlots ∧ sb.schemaVersion = schemaVersion ∧ sb.slotCrc = true := by
  refine ⟨((db.setSchemaVersion schemaVersion).setFlags 3).sb, ?_, ?_, ?_, ?_⟩
  · unfold setSchemaVersion setFlags
    rw [view_store_low (by norm_num), view_store_low (by norm_num), View.setSb_setSb]
  · exact (load_store_of_disjoint (by omega)).trans (load_store_of_disjoint (by omega))
  · exact (load_store_of_disjoint (by omega)).trans (load_store_self _ 24 4 _)
  · have hflags : ((db.setSchemaVersion schemaVersion).setFlags 3).sb.flags = 3 :=
      load_store_self _ 28 4 _
    unfold Superblock.slotCrc
    rw [hflags]
    rfl

/-- An upgrade that succeeds is one of a writable handle. -/
lemma writable_of_efUpgrade (hok : db.efUpgrade.1 = .ok) : db.readonly = false := by
  by_contra hr
  unfold efUpgrade efDbRequireWrite at hok
  rw [if_pos (by simpa using hr)] at hok
  cases hok

/-- **The upgrade**: the slots are converted and sealed, and the handle has the new layout. -/
lemma efUpgrade_spec (h : (db.view g).Bound g) (hneeds : db.efNeedsUpgrade = true) :
    (db.efUpgrade.2.view g).Bound g ∧ db.efUpgrade.2.legacyPayload = false ∧
      db.efUpgrade.2.sb.slotCrc = true ∧ ∀ i, i < g.n → (db.efUpgrade.2.view g).slots i =
        if efSlotStatusHasCrc ((db.view g).slots i).status = true then
          (((db.view g).slots i).upgraded db.sb.slotCrc i).sealed true i
        else ((db.view g).slots i).upgraded db.sb.slotCrc i := by
  have hschema : ¬ (db.sb.schemaVersion ≠ schemaVersion ∧ db.sb.schemaVersion ≠ schemaVersionV3 ∧
      db.sb.schemaVersion ≠ schemaVersionV2 ∧ db.sb.schemaVersion ≠ schemaLegacy ∧
        db.sb.schemaVersion ≠ 0) := by
    rintro ⟨h5, h3, h2, h1, h0⟩
    unfold efNeedsUpgrade at hneeds
    rw [if_neg (by tauto)] at hneeds
    exact (of_decide_eq_true hneeds).elim h0 h1
  have hmax : db.sb.maxSlots = g.n := h.maxSlots
  have hcrc : (db.view g).sb.slotCrc = db.sb.slotCrc := rfl
  unfold efUpgrade
  rw [efDbRequireWrite_eq h.writable]
  simp only
  rw [if_neg (by simp [hneeds]), if_neg hschema]
  unfold efUpgradeSlotsV1ToV2
  simp only
  have hloop := view_upgradeSlotsLoop h.cap (le_of_eq hmax)
  generalize db.upgradeSlotsLoop db.sb.maxSlots = db₁ at hloop ⊢
  obtain ⟨sb, hview₂, hmax₂, hschema₂, hcrc₂⟩ := view_setSchema db₁ g
  generalize (db₁.setSchemaVersion schemaVersion).setFlags 3 = db₂ at hview₂ ⊢
  have hmax₁ : db₁.sb.maxSlots = db.sb.maxSlots := congrArg (fun v => v.sb.maxSlots) hloop
  have hb₂ : (db₂.view g).Bound g := by
    rw [hview₂, hloop]
    exact h.congr rfl rfl rfl (hmax₂.trans hmax₁)
  obtain ⟨c, hview₃⟩ := view_efDbRefreshChecksums hb₂
  rw [hview₂, View.setSb_sb, if_pos hcrc₂] at hview₃
  generalize db₂.efDbRefreshChecksums = db₃ at hview₃ ⊢
  have hsb₃ : db₃.sb = sb.setChecksum c := congrArg View.sb hview₃
  rw [view_setError]
  refine ⟨?_, ?_, ?_, fun i hi => ?_⟩
  · rw [hview₃, hloop]
    exact h.congr rfl rfl rfl (hmax₂.trans hmax₁)
  · refine legacyPayload_eq_false (g := g) ?_
    show db₃.sb.schemaVersion = _
    rw [hsb₃]
    exact hschema₂
  · show db₃.sb.slotCrc = true
    rw [hsb₃]
    exact hcrc₂
  · rw [hview₃, View.setSb_slots, View.reseal_slots, View.setSb_slots, View.setSb_sb, hloop,
      View.upgraded_slots, hmax, if_pos hi, hcrc₂, Slot.upgraded_status, hcrc]
    by_cases hhas : efSlotStatusHasCrc ((db.view g).slots i).status = true
    · rw [if_pos hhas, if_pos ⟨hi, hhas⟩]
    · rw [if_neg hhas, if_neg fun hc => hhas hc.2]

/-- **The upgrade keeps the payloads** of the used slots exactly if they had the old layout, or the
payload of each repeats the four bytes of its checksum field. -/
theorem efUpgrade_keeps_iff (hm : db.Mapped) (hneeds : db.efNeedsUpgrade = true)
    (hok : db.efUpgrade.1 = .ok) : UpgradeKeeps db db.efUpgrade.2 ↔
      (db.sb.schemaVersion = 0 ∨ db.sb.schemaVersion = schemaLegacy) ∨
        ∀ i, i < db.sb.maxSlots → (db.slot i).status = statusUsed →
          (db.slot i).payload = (List.replicate 12 (leBytes 4 (db.slot i).headerCrc)).flatten := by
  obtain ⟨g, hb⟩ := hm.geometry (writable_of_efUpgrade hok)
  have hmax : db.sb.maxSlots = g.n := hb.maxSlots
  obtain ⟨hb', hlegacy', hcrc', hslots⟩ := efUpgrade_spec hb hneeds
  generalize db.efUpgrade.2 = db' at hb' hlegacy' hcrc' hslots ⊢
  have hcap' : db'.hashCapacity = g.cap := hb'.cap
  have hhas : efSlotStatusHasCrc statusUsed = true := by decide
  have hused : ∀ i, i < g.n → ((db.view g).slots i).status = statusUsed →
      (db'.view g).slots i = (((db.view g).slots i).upgraded db.sb.slotCrc i).sealed true i := by
    intro i hi hst
    rw [hslots i hi, hst, if_pos hhas]
  have hpayload : ∀ i, i < g.n → ((db.view g).slots i).status = statusUsed → db'.payloadHead i =
      (leBytes 4 ((db.view g).slots i).headerCrc ++ ((db.view g).slots i).payload).take 48 := by
    intro i hi hst
    rw [payloadHead_eq hcap' hi, hlegacy', if_neg (by simp), hused i hi hst, Slot.sealed_payload]
    unfold Slot.upgraded
    rw [if_pos hst, Slot.sealed_payload]
  have haccepted : ∀ i, i < db.sb.maxSlots → (db.slot i).status = statusUsed →
      efSlotHeaderCrcCompute i (db'.slot i) ≠ 0 → (db'.efGetSlot i).1 ≠ none := by
    intro i hi hst hne hnone
    rw [slot_eq hb.cap (by omega)] at hst
    rw [slot_eq hb'.cap (by omega)] at hne
    rw [efGetSlot_eq_none_iff hb' (by omega)] at hnone
    have hcrcv : (db'.view g).sb.slotCrc = true := hcrc'
    rw [hcrcv, hused i (by omega) hst] at hnone
    refine hne ?_
    rw [hused i (by omega) hst]
    refine (Slot.compute_congr (Slot.sealed_status ..) (Slot.sealed_payload ..)
      (Slot.sealed_nextOffset ..)).trans ?_
    exact (Slot.crcValid_sealed_eq_false_iff.mp hnone).2
  have hrepeats : ∀ i, i < g.n →
      ((leBytes 4 ((db.view g).slots i).headerCrc ++ ((db.view g).slots i).payload).take 48 =
        ((db.view g).slots i).payload ↔ ((db.view g).slots i).payload =
          (List.replicate 12 (leBytes 4 ((db.view g).slots i).headerCrc)).flatten) := by
    intro i hi
    have hlen := view_length_payload db hi
    have hiff := @take_append_eq_self_iff _ (leBytes 4 ((db.view g).slots i).headerCrc)
      ((db.view g).slots i).payload 12 (by rw [hlen, length_leBytes])
    rwa [hlen] at hiff
  by_cases hold : db.legacyPayload = true
  · refine iff_of_true ⟨fun i hi hst => ?_, haccepted⟩ (.inl (of_decide_eq_true hold))
    rw [slot_eq hb.cap (by omega)] at hst
    rw [hpayload i (by omega) hst, payloadHead_eq hb.cap (by omega), if_pos hold]
  · have hnew : ¬ (db.sb.schemaVersion = 0 ∨ db.sb.schemaVersion = schemaLegacy) := fun hc =>
      hold (decide_eq_true hc)
    have hbefore : ∀ i, i < g.n → db.payloadHead i = ((db.view g).slots i).payload := fun i hi => by
      rw [payloadHead_eq hb.cap hi, if_neg hold]
    constructor
    · intro hkeeps
      refine .inr fun i hi hst => ?_
      have hp := hkeeps.payload i hi hst
      rw [slot_eq hb.cap (by omega)] at hst ⊢
      rw [hpayload i (by omega) hst, hbefore i (by omega)] at hp
      exact (hrepeats i (by omega)).mp hp
    · rintro (hc | hrep)
      · exact absurd hc hnew
      · refine ⟨fun i hi hst => ?_, haccepted⟩
        have hp := hrep i hi hst
        rw [slot_eq hb.cap (by omega)] at hst hp
        rw [hpayload i (by omega) hst, hbefore i (by omega)]
        exact (hrepeats i (by omega)).mpr hp

/-- A database of one used slot with the payload `1`, of the given schema and without flags. -/
def unflagged (schema : ℕ) : Db :=
  let db := (newMemory 1 0).efAllocSlot.2.2
  ((db.store (db.slotPtr 0 + 8) 1 1).setSchemaVersion schema).setFlags 0

/-- The old layout. -/
theorem efUpgrade_keeps_iff_of_legacy : UpgradeKeeps (unflagged 1) (unflagged 1).efUpgrade.2 ↔
    ((unflagged 1).sb.schemaVersion = 0 ∨ (unflagged 1).sb.schemaVersion = schemaLegacy) ∨
      ∀ i, i < (unflagged 1).sb.maxSlots → ((unflagged 1).slot i).status = statusUsed →
        ((unflagged 1).slot i).payload =
          (List.replicate 12 (leBytes 4 ((unflagged 1).slot i).headerCrc)).flatten :=
  efUpgrade_keeps_iff (by decide +kernel) (by decide +kernel) (by decide +kernel)

/-- A v2 database without the flags: the payload moves four bytes up, behind the bytes of the
checksum field. -/
theorem efUpgrade_shifts_payload :
    (unflagged 2).Mapped ∧ (unflagged 2).efNeedsUpgrade = true ∧ (unflagged 2).efUpgrade.1 = .ok ∧
      ((unflagged 2).slot 0).status = statusUsed ∧
      (unflagged 2).efUpgrade.2.payloadHead 0 ≠ (unflagged 2).payloadHead 0 :=
  ⟨by decide +kernel, by decide +kernel, by decide +kernel, by decide +kernel, by decide +kernel⟩

end Db

end Endfields.Model
