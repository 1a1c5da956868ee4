import Endfields.Spec.Table

/-!
# Insertion into the hash index

The insertion loop compares its running index, which is not reduced, with a bound that changes with
the entry it places. An entry displaced behind the end of the array, whose home bucket is there too,
has its bound before the index: the loop ends with `EF_ERR_INDEX_FULL`, and the entry is lost.

* `Db.IndexReachable`: the tables that insertions and removals make from an empty one. They are all
  in order (`IndexReachable.indexed`).
* `Db.putOverruns`: from the new key's home on, an entry is displaced and an entry is then carried
  to its bound, read off the table before the call.
* **`efIndexPutEntry_loses_nothing_iff`**: an insertion of a new key succeeds into every table that
  is not full, and changes nothing when it fails, exactly when it does not overrun.
-/

namespace Endfields.Model

open Endfields.Lib

namespace Db

variable {db : Db} {k off : ℕ}

/-- The handles whose table insertions and removals make from an empty table. An insertion stores a
slot offset other than `0`, which marks an empty bucket.
Source: `ef_index.c`, `ef_index_put_entry`, `ef_index_remove_by_hash` -/
inductive IndexReachable : Db → Prop
  | empty (db : Db) (hpos : 0 < db.hashCapacity)
      (hpow : db.hashCapacity &&& (db.hashCapacity - 1) = 0)
      (hempty : ∀ b, b < db.hashCapacity → (db.entry b).empty = true) : IndexReachable db
  | put (db : Db) (k off : ℕ) (h : IndexReachable db) (hk : k < u64) (ho : off < u64)
      (ho0 : off ≠ 0) : IndexReachable (db.efIndexPutEntry k off).2.2
  | remove (db : Db) (k : ℕ) (h : IndexReachable db) : IndexReachable (db.efIndexRemoveByHash k).2

/-- The insertion of a key hash displaces an entry and carries an entry to the end of its loop
bound.
Source: `ef_index.c`, `ef_index_put_entry` -/
def putOverruns (db : Db) (k : ℕ) : Prop :=
  RobinHood.Overruns db.hashCapacity (efHashHome db.hashCapacity) db.table
    (efHashHome db.hashCapacity k)

lemma Indexed.put (h : db.Indexed) (hk : k < u64) (ho : off < u64) (ho0 : off ≠ 0) :
    (db.efIndexPutEntry k off).2.2.Indexed := by
  have hput := efIndexPutEntry_eq h hk ho ho0
  refine ⟨by rw [hput.cap]; exact h.pos, by rw [hput.cap]; exact h.pow, ?_⟩
  unfold TableOk
  rw [hput.cap, hput.table]
  exact RobinHood.put_ok h.ok h.home_lt (by omega)

/-- **Every reachable table is in order.** -/
lemma IndexReachable.indexed (h : IndexReachable db) : db.Indexed := by
  induction h with
  | empty db hpos hpow hempty =>
      have hnone : ∀ i, db.table (i % db.hashCapacity) = none := fun i =>
        table_eq_none_iff.mpr (hempty _ (Nat.mod_lt _ hpos))
      refine ⟨hpos, hpow, ?_, ?_⟩
      · intro i e he
        rw [hnone] at he
        cases he
      · intro i j e e' he
        rw [hnone] at he
        cases he
  | put db k off _ hk ho ho0 ih => exact ih.put hk ho ho0
  | remove db k _ ih => exact (ih.remove k).1

/-- The result code of an insertion. -/
lemma efIndexPutEntry_ok_iff (h : db.Indexed) (hk : k < u64) (ho : off < u64) (ho0 : off ≠ 0) :
    (db.efIndexPutEntry k off).1 = .ok ↔
      (RobinHood.put db.hashCapacity (efHashHome db.hashCapacity) k off (2 * db.hashCapacity)
        (efHashHome db.hashCapacity k) (k, off) db.table).1 ≠ .full := by
  have hcode := congrArg Prod.fst (efIndexPutEntry_eq h hk ho ho0).code
  simp only at hcode
  rw [hcode]
  cases (RobinHood.put db.hashCapacity (efHashHome db.hashCapacity) k off (2 * db.hashCapacity)
    (efHashHome db.hashCapacity k) (k, off) db.table).1 <;> simp [outcomeCode]

/-- **Insertion of a new key loses nothing exactly when it does not overrun.**
Source: `ef_index.c`, `ef_index_put_entry` -/
theorem efIndexPutEntry_loses_nothing_iff (h : IndexReachable db) (hk : k < u64) (ho : off < u64)
    (ho0 : off ≠ 0) (hnew : db.efIndexFindEntryUnlocked k = .error .notFound) :
    let r := db.efIndexPutEntry k off
    ((db.countEntries db.hashCapacity < db.hashCapacity → r.1 = .ok) ∧
      (r.1 ≠ .ok → ∀ k', r.2.2.efIndexFindEntryUnlocked k' = db.efIndexFindEntryUnlocked k')) ↔
      ¬ db.putOverruns k := by
  have hi := h.indexed
  have habsent := (resolve_eq_notFound_iff hi.pos hi.readable).mp hnew
  have hput := efIndexPutEntry_eq hi hk ho ho0
  have hok := efIndexPutEntry_ok_iff hi hk ho ho0
  have hfull := RobinHood.put_full_iff (v := off) hi.ok hi.home_lt habsent le_rfl
  have hcount := (countEntries_lt_iff db db.hashCapacity).2
  intro r
  constructor
  · rintro ⟨-, hsame⟩ hover
    -- the failed insertion leaves the new key in the table
    have herr : r.1 ≠ .ok := fun h0 => hok.mp h0 (hfull.mpr (.inr hover))
    have hmem : r.2.2.Maps k off := by
      unfold Maps
      rw [hput.cap, hput.table]
      exact RobinHood.mem_put_of_overruns hi.ok hi.home_lt habsent hover (by omega)
    have hi' := hi.put hk ho ho0
    have hfound := (resolve_eq_ok_iff hi'.pos hi'.readable ⟨k, off⟩).mpr ⟨rfl, hmem⟩
    have heq := hsame herr k
    rw [hnew] at heq
    rw [heq] at hfound
    cases hfound
  · intro hover
    refine ⟨fun hroom => ?_, fun herr k' => ?_⟩
    · -- a table with an empty bucket is not settled
      refine hok.mpr fun hf => ?_
      rcases hfull.mp hf with hset | hov
      · obtain ⟨p, hp, hnone⟩ := hcount.mp hroom
        have hhome := hi.home_lt k
        have hd := RobinHood.dist_lt (h := efHashHome db.hashCapacity k) (p := p) hi.pos
        have hidx := RobinHood.add_dist hhome p
        rw [Nat.mod_eq_of_lt hp] at hidx
        have hocc := (hset (efHashHome db.hashCapacity k +
          RobinHood.dist db.hashCapacity (efHashHome db.hashCapacity k) p) (by omega) (by omega)).1
        rw [hidx] at hocc
        exact hocc hnone
      · exact hover hov
    · have hset : RobinHood.Settled db.hashCapacity (efHashHome db.hashCapacity) db.table
          (efHashHome db.hashCapacity k) := by
        by_contra hns
        refine herr (hok.mpr fun hf => ?_)
        rcases hfull.mp hf with hset | hov
        · exact hns hset
        · exact hover hov
      have hnew' : ∀ j e, db.table (j % db.hashCapacity) = some e → e.1 ≠ k := by
        intro j e he heq
        refine habsent e.2 ⟨j, ?_⟩
        rw [← heq]
        exact he
      have hsame := RobinHood.put_of_settled (2 * db.hashCapacity) (v := off) hi.home_lt hnew'
        hset le_rfl
      refine hi.resolve_congr (hi.put hk ho ho0) fun o => ?_
      unfold Maps
      rw [hput.cap, hput.table, hsame]

/-- Eight buckets with the keys `7`, `15`, `2`, `3`, of which `15` has wrapped to bucket `0`. The
new key `10`, with home `2`, displaces the key `3`. -/
theorem efIndexPutEntry_loses_nothing_of_wrapped :
    let db := (((((newMemory 1 8).efIndexPutEntry 7 128).2.2.efIndexPutEntry 15 128).2.2.efIndexPutEntry
      2 128).2.2.efIndexPutEntry 3 128).2.2
    db.countEntries db.hashCapacity = 4 ∧ db.entry 0 = ⟨15, 128⟩ ∧ db.entry 3 = ⟨3, 128⟩ ∧
      (db.efIndexPutEntry 10 128).2.2.entry 3 = ⟨10, 128⟩ ∧
      (((db.countEntries db.hashCapacity < db.hashCapacity → (db.efIndexPutEntry 10 128).1 = .ok) ∧
        ((db.efIndexPutEntry 10 128).1 ≠ .ok → ∀ k',
          (db.efIndexPutEntry 10 128).2.2.efIndexFindEntryUnlocked k' =
            db.efIndexFindEntryUnlocked k')) ↔ ¬ db.putOverruns 10) := by
  refine ⟨by decide +kernel, by decide +kernel, by decide +kernel, by decide +kernel, ?_⟩
  refine efIndexPutEntry_loses_nothing_iff ?_ (by decide) (by decide) (by decide) (by decide +kernel)
  refine .put _ _ _ (.put _ _ _ (.put _ _ _ (.put _ _ _ (.empty _ ?_ ?_ ?_) ?_ ?_ ?_) ?_ ?_ ?_)
    ?_ ?_ ?_) ?_ ?_ ?_ <;> decide +kernel

/-- Two of four buckets are occupied, by keys with the homes `3` and `0`. A key with home `3` goes
to bucket `0`; the insertion fails, and the key with home `0` is lost. -/
theorem efIndexPutEntry_loses_key :
    let db := (((newMemory 1 4).efIndexPutEntry 3 128).2.2.efIndexPutEntry 4 128).2.2
    IndexReachable db ∧ db.efIndexFindEntryUnlocked 7 = .error .notFound ∧
      db.countEntries db.hashCapacity < db.hashCapacity ∧
      (db.efIndexPutEntry 7 128).1 = .indexFull ∧
      db.efIndexFindEntryUnlocked 4 = .ok ⟨4, 128⟩ ∧
      (db.efIndexPutEntry 7 128).2.2.efIndexFindEntryUnlocked 4 = .error .notFound := by
  refine ⟨?_, by decide +kernel⟩
  refine .put _ _ _ (.put _ _ _ (.empty _ ?_ ?_ ?_) ?_ ?_ ?_) ?_ ?_ ?_ <;> decide +kernel

end Db

end Endfields.Model
