import Endfields.Resize.Rehash

/-!
# A rehash that fails

`ef_index_rehash_to` leaves its last check behind before it moves the slots. What can still fail
then is the insertion of an entry into the new table, and nothing is moved back.

* `Db.Unchanged db db'`: the index, its capacity and count, and all slots are as they were.
* **`efIndexRehash_failure_iff`**: a failing resize changes nothing, if and only if it is not the
  case that all its checks pass while the entries do not go into the new table.
* `efIndexRehash_moves_and_fails`: three keys in four buckets, and a rehash to eight.
-/

namespace Endfields.Model

open Endfields.Lib

namespace Db

/-- The handle and its image show the same index and the same slots, with checksums that are as
valid as they were. -/
structure Unchanged (db db' : Db) : Prop where
  capacity : db'.hashCapacity = db.hashCapacity
  base : db'.slotsBase = db.slotsBase
  count : db'.hashEntryCount = db.hashEntryCount
  keys : ∀ k, db'.resolve k = db.resolve k
  slots : ∀ i, i < db.sb.maxSlots → db'.slot i = db.slot i
  crc : ∀ i, i < db.sb.maxSlots →
    db'.efSlotHeaderCrcValid i (db'.slot i) = db.efSlotHeaderCrcValid i (db.slot i)

variable {g : Geometry} {db db' : Db}

lemma Unchanged.refl (db : Db) : Unchanged db db :=
  ⟨rfl, rfl, rfl, fun _ => rfl, fun _ _ => rfl, fun _ _ => rfl⟩

/-- Nothing but the answers to lock attempts differs. -/
lemma unchanged_of_still (h : (db.view g).Bound g) (hst : View.Still (db.view g) (db'.view g))
    (hix : db'.index = db.index) : Unchanged db db' := by
  have h' := hst.bound h
  have hcap : db'.hashCapacity = db.hashCapacity := hashCapacity_of_index hix
  have hmax : db.sb.maxSlots = g.n := h.maxSlots
  have hsb : db'.sb = db.sb := hst.sb
  have hslot : ∀ i, i < db.sb.maxSlots → db'.slot i = db.slot i := by
    intro i hi
    rw [slot_eq h.cap (by omega), slot_eq h'.cap (by omega), hst.slots]
  refine ⟨hcap, by rw [db'.slotsBase_eq, db.slotsBase_eq, hcap], congrArg Index.count hix,
    resolve_of_index hix (congrArg Superblock.maxSlots hsb), hslot, fun i hi => ?_⟩
  rw [hslot i hi]
  unfold efSlotHeaderCrcValid
  rw [hsb]

/-- A resize, in either direction. -/
lemma efIndexRehashTo_failure_iff (hm : db.Mapped) (hs : db.sb.schemaVersion = schemaVersion)
    (hent : db.EntriesOk) (newCapacity : ℕ) (allowShrink : Bool) :
    ((db.efIndexRehashTo newCapacity allowShrink).1 ≠ .ok →
        db.Unchanged (db.efIndexRehashTo newCapacity allowShrink).2) ↔
      ¬ (db.RehashStarts newCapacity allowShrink ∧ db.refills newCapacity = false) := by
  by_cases hw : db.readonly = true
  · unfold efIndexRehashTo
    rw [if_pos hw]
    refine iff_of_true (fun _ => Unchanged.refl db) fun hst => ?_
    have hno := hst.1.writable
    rw [hw] at hno
    cases hno
  obtain ⟨g, h⟩ := hm.geometry (by simpa using hw)
  have hfit : 64 * g.n < 2 ^ 63 := by
    have hin : g.undoBase ≤ db.fileSize := h.inFile
    have hb := hm.bound
    unfold Geometry.undoBase at hin
    omega
  have hcases := efIndexRehashTo_cases h hs hfit (hent.maps h) newCapacity allowShrink
  generalize db.efIndexRehashTo newCapacity allowShrink = r at hcases ⊢
  obtain ⟨err, db'⟩ := r
  simp only at hcases ⊢
  rcases hcases with ⟨hno, hst, hix, -⟩ | ⟨hst, g', rfl, hn, hr, hok, -⟩
  · exact iff_of_true (fun _ => unchanged_of_still h hst hix) fun hc => hno hc.1
  · constructor
    · rintro hun ⟨-, hfail⟩
      -- the slots have moved
      have herr : err ≠ .ok := fun h0 => by
        rw [hok.mp h0] at hfail
        cases hfail
      have hcap := (hun herr).capacity
      have hcap' : db'.hashCapacity = g'.cap := congrArg Core.hashCapacity hr.core
      cases allowShrink with
      | true => exact absurd (hst.shrinks rfl).1 (by omega)
      | false => exact absurd (hst.grows rfl) (by omega)
    · intro hno herr
      refine absurd (hok.mpr ?_) herr
      by_contra hfail
      exact hno ⟨hst, by simpa using hfail⟩

/-- **A resize that fails changes nothing**, if and only if it does not fail where its last check is
behind it: with all checks passed, some entry does not go into the new table.
Source: `ef_index.c`, `ef_index_rehash_to` -/
theorem efIndexRehash_failure_iff (hm : db.Mapped) (hs : db.sb.schemaVersion = schemaVersion)
    (hent : db.EntriesOk) (newCapacity : ℕ) :
    (((db.efIndexRehash newCapacity).1 ≠ .ok → db.Unchanged (db.efIndexRehash newCapacity).2) ↔
        ¬ (db.RehashStarts newCapacity false ∧ db.refills newCapacity = false)) ∧
      (((db.efIndexShrink newCapacity).1 ≠ .ok → db.Unchanged (db.efIndexShrink newCapacity).2) ↔
        ¬ (db.RehashStarts newCapacity true ∧ db.refills newCapacity = false)) := by
  refine ⟨efIndexRehashTo_failure_iff hm hs hent newCapacity false, ?_⟩
  unfold efIndexShrink
  by_cases h0 : newCapacity = 0
  · rw [if_pos h0]
    exact iff_of_true (fun _ => Unchanged.refl db) fun hst => absurd hst.1.pos (by omega)
  · rw [if_neg h0]
    exact efIndexRehashTo_failure_iff hm hs hent newCapacity true

/-- A new database of four buckets, in a buffer with room for more, with three keys: the home of the
first two is the last bucket, that of the third is the first. -/
def wrapped : Db :=
  let db := (efOpenMemoryHash (fun _ => 0) (efExpectedFileSize 1 16 undoLogDefaultSlots) 1 4 true
    Env.quiet).2
  let db := (db.efIndexPut [104] 0).2
  let db := (db.efIndexPut [112] 0).2
  (db.efIndexPut [101] 0).2

/-- All checks of the rehash to eight buckets pass, and the entries do not go into the new table;
for the shrink to two buckets the handle counts too many. -/
theorem efIndexRehash_failure_iff_of_wrapped :
    wrapped.RehashStarts 8 false ∧ wrapped.refills 8 = false ∧
      (((wrapped.efIndexRehash 8).1 ≠ .ok → wrapped.Unchanged (wrapped.efIndexRehash 8).2) ↔
        ¬ (wrapped.RehashStarts 8 false ∧ wrapped.refills 8 = false)) ∧
      (((wrapped.efIndexShrink 2).1 ≠ .ok → wrapped.Unchanged (wrapped.efIndexShrink 2).2) ↔
        ¬ (wrapped.RehashStarts 2 true ∧ wrapped.refills 2 = false)) :=
  ⟨by decide +kernel, by decide +kernel,
    (efIndexRehash_failure_iff (by decide +kernel) (by decide +kernel) (by decide +kernel) 8).1,
    (efIndexRehash_failure_iff (by decide +kernel) (by decide +kernel) (by decide +kernel) 2).2⟩

/-- The rehash to eight buckets fails, and the capacity is eight and a key is gone. -/
theorem efIndexRehash_moves_and_fails :
    (wrapped.efIndexRehash 8).1 = .indexFull ∧ wrapped.hashCapacity = 4 ∧
      (wrapped.efIndexRehash 8).2.hashCapacity = 8 ∧
      wrapped.resolve (efKeyHash [101]) = .ok 0 ∧
      (wrapped.efIndexRehash 8).2.resolve (efKeyHash [101]) = .error .notFound := by
  decide +kernel

end Db

end Endfields.Model
