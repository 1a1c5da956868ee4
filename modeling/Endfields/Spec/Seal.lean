import Endfields.Spec.Pool

/-!
# Checksums that are up to date

Which slots carry the header checksum of their contents, and what the steps of the slot operations
do to that.

* `View.SealedBut g v D`: checksums are kept, and every slot outside `D` whose status has a checksum
  carries its own. `D` are the slots whose contents an operation has changed and not sealed yet.
* `View.Seals g v g' v'`: whatever was sealed in `v` is sealed in `v'`; with `View.SealsBut` one
  slot is still to be sealed.
* **The steps**: a write takes the slot into `D` (`SealedBut.write`), the checksum takes it out
  again (`SealedBut.seal`), and so does a status without a checksum (`SealedBut.unmark`).
-/

namespace Endfields.Model

/-- The slot carries the checksum of its contents, if its status has one. -/
def Slot.Sealed (id : ℕ) (s : Slot) : Prop :=
  efSlotStatusHasCrc s.status = true → s.headerCrc = efSlotHeaderCrcCompute id s

/-- The checksum brought up to date. -/
lemma Slot.sealed_sealed (id : ℕ) (s : Slot) : (Slot.sealed true id s).Sealed id := by
  intro _
  have hcomp : efSlotHeaderCrcCompute id (Slot.sealed true id s) = efSlotHeaderCrcCompute id s :=
    compute_congr (sealed_status ..) (sealed_payload ..) (sealed_nextOffset ..)
  rw [hcomp]
  rfl

/-- A status without a checksum asks for none. -/
lemma Slot.sealed_of_noCrc {id : ℕ} {s : Slot} (h : efSlotStatusHasCrc s.status = false) :
    s.Sealed id := by
  intro hst
  rw [h] at hst
  cases hst

namespace View

/-- Checksums are kept, and every slot outside `D` carries its own. -/
structure SealedBut (g : Geometry) (v : View) (D : Set ℕ) : Prop where
  crcOn : v.sb.slotCrc = true
  slots : ∀ j, j < g.n → j ∉ D → (v.slots j).Sealed j

/-- What was sealed in `v` is sealed in `v'`. -/
def Seals (g : Geometry) (v : View) (g' : Geometry) (v' : View) : Prop :=
  ∀ D, v.SealedBut g D → v'.SealedBut g' D

/-- What was sealed in `v` is sealed in `v'`, slot `i` apart. -/
def SealsBut (g : Geometry) (v : View) (i : ℕ) (g' : Geometry) (v' : View) : Prop :=
  ∀ D, v.SealedBut g D → v'.SealedBut g' (insert i D)

variable {g g' g'' : Geometry} {u v w : View} {D : Set ℕ} {i d : ℕ} {s : Slot}

/-- Nothing was written. -/
lemma Seals.refl (g : Geometry) (v : View) : v.Seals g g v := fun _ h => h

/-- Sealed steps compose. -/
lemma Seals.trans (h : u.Seals g g' v) (h' : v.Seals g' g'' w) : u.Seals g g'' w :=
  fun D hD => h' D (h D hD)

/-- The view stayed. -/
lemma Seals.of_eq (h : w = v) : v.Seals g g w := h ▸ Seals.refl g v

/-- The slots that differ are sealed or have no checksum. -/
lemma Seals.of_slots (hcrc : w.sb.slotCrc = v.sb.slotCrc)
    (hold : ∀ j, j < g.n → v.sb.slotCrc = true → w.slots j = v.slots j ∨ (w.slots j).Sealed j)
    (hnew : ∀ j, g.n ≤ j → j < g'.n → (w.slots j).Sealed j) : v.Seals g g' w := by
  intro D h
  refine ⟨hcrc.trans h.crcOn, fun j hj hD => ?_⟩
  by_cases hlt : j < g.n
  · rcases hold j hlt h.crcOn with heq | hs
    · rw [heq]
      exact h.slots j hlt hD
    · exact hs
  · exact hnew j (by omega) hj

/-! ### The steps -/

/-- A slot that is written. -/
lemma SealedBut.write (h : v.SealedBut g D) (i : ℕ) (s : Slot) :
    (v.setSlot i s).SealedBut g (insert i D) := by
  refine ⟨h.crcOn, fun j hj hD => ?_⟩
  obtain ⟨hji, hjD⟩ := not_or.mp hD
  rw [setSlot_slots, Function.update_of_ne hji]
  exact h.slots j hj hjD

/-- A slot that is written and is as it should be. -/
lemma SealedBut.setSlot (h : v.SealedBut g (insert i D)) (hs : s.Sealed i) :
    (v.setSlot i s).SealedBut g D := by
  refine ⟨h.crcOn, fun j hj hD => ?_⟩
  by_cases hji : j = i
  · rw [hji, setSlot_slots, Function.update_self]
    exact hs
  · rw [setSlot_slots, Function.update_of_ne hji]
    exact h.slots j hj (not_or.mpr ⟨hji, hD⟩)

/-- More slots may be out of date. -/
lemma SealedBut.mono {D' : Set ℕ} (h : v.SealedBut g D) (hD : D ⊆ D') : v.SealedBut g D' :=
  ⟨h.crcOn, fun j hj hj' => h.slots j hj fun hm => hj' (hD hm)⟩

/-- **The checksum** of a slot that was written. -/
lemma SealedBut.seal (h : v.SealedBut g (insert i D)) (s : Slot) :
    (v.setSlot i (Slot.sealed v.sb.slotCrc i s)).SealedBut g D := by
  rw [h.crcOn]
  exact h.setSlot (Slot.sealed_sealed i s)

/-- One slot is written together with its checksum.
Source: `endfields.c`, `ef_slot_header_crc_store` -/
lemma Seals.sealSlot (i : ℕ) (s : Slot) :
    v.Seals g g (v.setSlot i (Slot.sealed v.sb.slotCrc i s)) :=
  fun _ h => (h.mono (Set.subset_insert _ _)).seal s

/-- A superblock word that is not the flags. -/
lemma Seals.setSb (sb : Superblock) (hcrc : sb.slotCrc = v.sb.slotCrc) : v.Seals g g (v.setSb sb) :=
  fun _ h => ⟨hcrc.trans h.crcOn, h.slots⟩

/-- The log is no slot. -/
lemma Seals.setSeg (seg : Segment) : v.Seals g g (v.setSeg seg) := fun _ h => ⟨h.crcOn, h.slots⟩

/-- A sealed step seals all slots but one, too. -/
lemma Seals.but (h : v.Seals g g' w) (i : ℕ) : v.SealsBut g i g' w :=
  fun D hD => (h D hD).mono (Set.subset_insert i D)

/-- A sealed step after one that left a slot open. -/
lemma SealsBut.trans (h : u.SealsBut g i g' v) (h' : v.Seals g' g'' w) : u.SealsBut g i g'' w :=
  fun D hD => h' _ (h D hD)

/-- Writing the slot that is still to be sealed. -/
lemma SealsBut.write (h : u.SealsBut g i g' v) (s : Slot) : u.SealsBut g i g' (v.setSlot i s) := by
  intro D hD
  have hw := (h D hD).write i s
  rwa [Set.insert_idem] at hw

/-- The slot that was left open gets its checksum.
Source: `endfields.c`, `ef_slot_header_crc_store` -/
lemma SealsBut.seal (h : u.SealsBut g i g' v) (s : Slot) :
    u.Seals g g' (v.setSlot i (Slot.sealed v.sb.slotCrc i s)) :=
  fun D hD => (h D hD).seal s

/-- Taking the head of the list. -/
lemma Seals.popSlot (c : Bool) (i : ℕ) : v.Seals g g (v.popSlot c i) :=
  (Seals.setSb ((v.sb.setFreeListHead (v.slots i).nextOffset).setFreeCount (v.sb.freeCount - 1))
    rfl).trans (Seals.sealSlot i _)

/-- Giving a slot back. -/
lemma SealedBut.pushSlot (h : v.SealedBut g (insert i D)) : (v.pushSlot g i).SealedBut g D := by
  refine ⟨h.crcOn, fun j hj hD => ?_⟩
  by_cases hji : j = i
  · rw [hji, pushSlot_slots_self]
    exact Slot.sealed_of_noCrc rfl
  · rw [pushSlot_slots_of_ne hji]
    exact h.slots j hj (not_or.mpr ⟨hji, hD⟩)

/-- The slot that was left open is released, with its checksum.
Source: `ef_blob.c`, `ef_return_slot_to_pool` -/
lemma SealsBut.pushSlot (h : u.SealsBut g i g' v) : u.Seals g g' (v.pushSlot g' i) :=
  fun D hD => (h D hD).pushSlot

/-- Claiming a slot behind its predecessor `d`, which is free and has no checksum. -/
lemma Seals.claimAt (hd : (v.slots d).status = statusFree) : v.Seals g g (v.claimAt d i) := by
  refine (Seals.setSb (v.sb.setFreeCount (v.sb.freeCount - 1)) rfl).trans
    (Seals.trans ?_ (Seals.sealSlot i _))
  intro D h
  refine (h.mono (Set.subset_insert d D)).setSlot (Slot.sealed_of_noCrc ?_)
  show efSlotStatusHasCrc (v.slots d).status = false
  rw [hd]
  rfl

end View

end Endfields.Model
