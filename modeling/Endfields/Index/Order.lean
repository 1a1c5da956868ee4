import Endfields.Index.Remove

/-!
# The order of the buckets, and the end of a deletion

Robin Hood hashing keeps every entry behind entries that are about as far from their home as it is.
The shift loop of the deletion has no bound of its own, and ends also on tables without that order.

* `Db.RobinHoodOrder`: no key hash twice, and every entry off its home behind one that is at most
  one bucket closer to its own.
* **`robinHoodOrder_of_reachable`**: every insertion and removal keeps the order, failed or not.
* `indexCalled_disorder`: an insertion with the slot offset `0` does not.
* `Db.Shifts`: the shift loop without a bound. **`efIndexRemoveByHash_ends`**: it comes to its end,
  on every table.
-/

namespace Endfields.Model

open Endfields.Lib

namespace Db

variable {db db' : Db} {k pos p fuel : ℕ}

/-- How far the entry in a bucket is from its home. -/
def probeDist (db : Db) (p : ℕ) : ℕ :=
  efHashProbeDist db.hashCapacity (efHashHome db.hashCapacity (db.entry p).keyHash) p

/-- The bucket before a bucket, modulo the capacity. -/
def bucketBefore (db : Db) (p : ℕ) : ℕ := (p + db.hashCapacity - 1) % db.hashCapacity

/-- The representation invariant of the table. -/
structure RobinHoodOrder (db : Db) : Prop where
  once : ∀ i j, i < db.hashCapacity → j < db.hashCapacity → (db.entry i).empty = false →
    (db.entry j).empty = false → (db.entry i).keyHash = (db.entry j).keyHash → i = j
  preceded : ∀ p, p < db.hashCapacity → (db.entry p).empty = false → 1 ≤ db.probeDist p →
    (db.entry (db.bucketBefore p)).empty = false ∧
      db.probeDist p - 1 ≤ db.probeDist (db.bucketBefore p)

/-! ### The order -/

/-- The bucket after the bucket before. -/
lemma succ_bucketBefore (hp : p < db.hashCapacity) :
    db.bucketBefore p < db.hashCapacity ∧ (db.bucketBefore p + 1) % db.hashCapacity = p := by
  have hpos : 0 < db.hashCapacity := by omega
  refine ⟨Nat.mod_lt _ hpos, ?_⟩
  unfold bucketBefore
  rw [Nat.mod_add_mod, show p + db.hashCapacity - 1 + 1 = p + db.hashCapacity by omega,
    Nat.add_mod_right, Nat.mod_eq_of_lt hp]

/-- The order of the table, in the words of the code. -/
lemma Indexed.robinHoodOrder (h : db.Indexed) : db.RobinHoodOrder where
  once i j hi hj hei hej hkey := by
    have hi' := table_eq_some hei
    have hj' := table_eq_some hej
    rw [← Nat.mod_eq_of_lt hi] at hi'
    rw [← Nat.mod_eq_of_lt hj] at hj'
    have hmod := h.ok.unique i j _ _ hi' hj'
    rw [Nat.mod_eq_of_lt hi, Nat.mod_eq_of_lt hj] at hmod
    exact hmod hkey
  preceded p hp hemp hdist := by
    obtain ⟨hlt, hsucc⟩ := succ_bucketBefore hp
    have hsorted := h.ok.sorted (db.bucketBefore p)
    rw [hsucc, Nat.mod_eq_of_lt hlt] at hsorted
    have hne : RobinHood.dist db.hashCapacity
        (efHashHome db.hashCapacity (db.entry p).keyHash) p ≠ 0 := by
      intro h0
      have h0' : db.probeDist p = 0 := h0
      omega
    obtain ⟨e', he', hle⟩ := hsorted _ (table_eq_some hemp) hne
    obtain ⟨hoff, hkey, hval⟩ := table_eq_some_iff.mp he'
    constructor
    · unfold HashEntry.empty
      rw [hval]
      exact decide_eq_false hoff
    · have hprev : db.probeDist (db.bucketBefore p) = RobinHood.dist db.hashCapacity
          (efHashHome db.hashCapacity e'.1) (db.bucketBefore p) := by
        unfold probeDist
        rw [hkey]
        rfl
      rw [hprev]
      exact Nat.sub_le_of_le_add hle

/-- **Every reachable table is in Robin Hood order**, after every insertion of a slot offset and
every removal, whatever they returned.
Source: `ef_index.c`, `ef_index_put_entry` and `ef_index_remove_by_hash` -/
theorem robinHoodOrder_of_reachable (h : IndexReachable db) : db.RobinHoodOrder :=
  h.indexed.robinHoodOrder

/-- Three keys with home `3` in four buckets, around the end of the array, and the first of them
removed. -/
theorem robinHoodOrder_of_wrapped :
    let db := (((newMemory 1 4).efIndexPutEntry 3 64).2.2.efIndexPutEntry 7 128).2.2
    ((db.efIndexPutEntry 11 192).2.2.efIndexRemoveByHash 3).2.RobinHoodOrder := by
  refine robinHoodOrder_of_reachable ?_
  refine .remove _ _ (.put _ _ _ (.put _ _ _
      (.put _ _ _ (.empty _ ?_ ?_ ?_) ?_ ?_ ?_) ?_ ?_ ?_) ?_ ?_ ?_)
    <;> decide +kernel

/-- The keys `4` and `8` have the home `0`. An insertion of `4` with the slot offset `0` leaves an
empty bucket before that of `8`. -/
theorem indexCalled_disorder :
    let db := ((((newMemory 1 4).efIndexPutEntry 4 64).2.2.efIndexPutEntry 8 128).2.2.efIndexPutEntry
      4 0).2.2
    IndexCalled db ∧ ¬ db.RobinHoodOrder := by
  intro db
  have hleft : 1 < db.hashCapacity ∧ (db.entry 1).empty = false ∧ 1 ≤ db.probeDist 1 ∧
      (db.entry (db.bucketBefore 1)).empty = true := by
    decide +kernel
  constructor
  · refine .put _ _ _ (.put _ _ _ (.put _ _ _ (.empty _ ?_ ?_ ?_) ?_ ?_) ?_ ?_) ?_ ?_ <;> decide +kernel
  · intro horder
    obtain ⟨hlt, hemp, hdist, hbefore⟩ := hleft
    have hprev := (horder.preceded 1 hlt hemp hdist).1
    rw [hbefore] at hprev
    cases hprev

/-! ### The end of the deletion -/

/-- The shift loop stops before the bucket behind `pos`.
Source: `ef_index.c`, the two exits of the loop of `ef_index_remove_by_hash` -/
def ShiftStops (db : Db) (pos : ℕ) : Prop :=
  (db.entry ((pos + 1) % db.hashCapacity)).empty = true ∨
    db.probeDist ((pos + 1) % db.hashCapacity) = 0

/-- The shift loop of the deletion from the bucket `pos` on, without a bound, ends with `db'`.
Source: `ef_index.c`, the inner loop of `ef_index_remove_by_hash` -/
inductive Shifts : ℕ → Db → Db → Prop
  | clear (pos : ℕ) (db : Db) (hstop : db.ShiftStops pos) : Shifts pos db (db.setEntry pos ⟨0, 0⟩)
  | move (pos : ℕ) (db db' : Db) (hgo : ¬ db.ShiftStops pos)
      (h : Shifts ((pos + 1) % db.hashCapacity)
        (db.setEntry pos (db.entry ((pos + 1) % db.hashCapacity))) db') : Shifts pos db db'

/-- The loop with fuel makes the steps of the loop without. -/
lemma shifts_of_shiftLoop (h : shiftLoop fuel pos db = some db') : Shifts pos db db' := by
  induction fuel generalizing pos db with
  | zero => cases h
  | succ fuel ih =>
      unfold shiftLoop at h
      simp only at h
      split_ifs at h with hstop
      · cases h
        exact .clear pos db hstop
      · exact .move pos db db' hstop (ih h)

/-- **A deletion ends** on every table of a power of two of buckets, whatever the buckets hold: from
the bucket where the key is found the shift loop comes to its end, and the deletion returns what it
leaves.
Source: `ef_index.c`, `ef_index_remove_by_hash` -/
theorem efIndexRemoveByHash_ends {j keyHash : ℕ} (hcap : db.hashCapacity = 2 ^ j)
    (hfind : db.findLoop keyHash db.hashCapacity (efHashHome db.hashCapacity keyHash) = some pos) :
    ∃ db', Shifts pos db db' ∧ db.efIndexRemoveByHash keyHash =
      (.ok, { db' with hashEntryCount := db'.hashEntryCount - 1 }) := by
  have hpos : 0 < db.hashCapacity := by
    rw [hcap]
    exact Nat.two_pow_pos j
  have hlt : pos < db.hashCapacity := by
    rw [findLoop_eq] at hfind
    obtain ⟨i, v, rfl, -⟩ := RobinHood.mem_of_find hfind
    exact Nat.mod_lt i hpos
  obtain ⟨db', hshift, -⟩ := shiftLoop_isSome hlt
  refine ⟨db', shifts_of_shiftLoop hshift, ?_⟩
  unfold efIndexRemoveByHash
  rw [if_neg hpos.ne', hfind]
  simp only [hshift]

/-- A full table of four buckets, as a corrupted file may hold it: no entry is in its home
bucket. -/
def offHome : Db :=
  ((((newMemory 1 4).setEntry 0 ⟨3, 64⟩).setEntry 1 ⟨4, 64⟩).setEntry 2 ⟨5, 64⟩).setEntry 3 ⟨6, 64⟩

/-- The deletion goes around that table. -/
theorem efIndexRemoveByHash_ends_offHome :
    ∃ db', Shifts 2 offHome db' ∧ offHome.efIndexRemoveByHash 5 =
      (.ok, { db' with hashEntryCount := db'.hashEntryCount - 1 }) :=
  efIndexRemoveByHash_ends (j := 2) (by decide +kernel) (by decide +kernel)

end Db

end Endfields.Model
