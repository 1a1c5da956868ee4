import Endfields.Index.Insert

/-!
# Removal from the hash index

A removal moves the entries behind the removed one back by a bucket, up to the first that is empty
or in its home bucket.

* `Db.RemovesExactly`: a removal takes off the key it finds and nothing else, or changes nothing.
* **`efIndexRemoveByHash_exact`**: so it does on every table that insertions and removals make, also
  when the table is full or a run of entries goes around the end of the array.
* `efIndexRemoveByHash_leaves_key`: the slot offset `0` marks an empty bucket. An insertion with
  that offset leaves a gap, and a removal of a key behind the gap then leaves a copy of it.
-/

namespace Endfields.Model

open Endfields.Lib

namespace Db

variable {db : Db} {k : ℕ}

/-- The removal of `k` is right: it succeeds exactly if the key is found, the key is then gone and
the others lead where they led, and otherwise nothing changes.
Source: `ef_index.c`, `ef_index_remove_by_hash` -/
structure RemovesExactly (db : Db) (k : ℕ) : Prop where
  ok_iff : (db.efIndexRemoveByHash k).1 = .ok ↔ ∃ e, db.efIndexFindEntryUnlocked k = .ok e
  gone : (db.efIndexRemoveByHash k).1 = .ok →
    (db.efIndexRemoveByHash k).2.efIndexFindEntryUnlocked k = .error .notFound
  others : (db.efIndexRemoveByHash k).1 = .ok → ∀ k', k' ≠ k →
    (db.efIndexRemoveByHash k).2.efIndexFindEntryUnlocked k' = db.efIndexFindEntryUnlocked k'
  refused : (db.efIndexRemoveByHash k).1 ≠ .ok →
    (db.efIndexRemoveByHash k).1 = .notFound ∧ (db.efIndexRemoveByHash k).2 = db

/-- A table in order. -/
lemma Indexed.removesExactly (h : db.Indexed) (k : ℕ) : db.RemovesExactly k := by
  obtain ⟨hindexed, -, hmaps, hcases⟩ := h.remove k
  -- the lookup before the call tells which of the two ways it goes
  have hfound : (∃ e, db.efIndexFindEntryUnlocked k = .ok e) ↔ ∃ off, db.Maps k off := by
    constructor
    · rintro ⟨e, he⟩
      exact ⟨e.slotOffset, ((resolve_eq_ok_iff h.pos h.readable e).1 he).2⟩
    · rintro ⟨off, hoff⟩
      exact ⟨⟨k, off⟩, (resolve_eq_ok_iff h.pos h.readable ⟨k, off⟩).2 ⟨rfl, hoff⟩⟩
  refine ⟨?_, ?_, ?_, ?_⟩
  · rw [hfound]
    rcases hcases with ⟨hcode, hex, -⟩ | ⟨hcode, hnone, -⟩
    · exact ⟨fun _ => hex, fun _ => hcode⟩
    · refine ⟨fun hok => ?_, fun ⟨off, hoff⟩ => absurd hoff (hnone off)⟩
      rw [hcode] at hok
      cases hok
  · intro _
    refine (resolve_eq_notFound_iff hindexed.pos hindexed.readable).2 ?_
    intro off hoff
    exact ((hmaps k off).1 hoff).2 rfl
  · intro _ k' hne
    apply h.resolve_congr hindexed
    intro off
    rw [hmaps]
    exact and_iff_left hne
  · intro herr
    rcases hcases with ⟨hcode, -, -⟩ | ⟨hcode, -, hsame⟩
    · exact absurd hcode herr
    · exact ⟨hcode, hsame⟩

/-- **Removal is exact** on every reachable table. -/
theorem efIndexRemoveByHash_exact (h : IndexReachable db) (k : ℕ) : db.RemovesExactly k :=
  h.indexed.removesExactly k

/-- A table of four buckets that is full: three keys with home `3` and one with home `2`. -/
theorem efIndexRemoveByHash_exact_of_full :
    let db := (((newMemory 1 4).efIndexPutEntry 3 64).2.2.efIndexPutEntry 7 128).2.2
    let db := ((db.efIndexPutEntry 2 192).2.2.efIndexPutEntry 11 256).2.2
    db.RemovesExactly 7 := by
  refine efIndexRemoveByHash_exact ?_ 7
  refine .put _ _ _ (.put _ _ _ (.put _ _ _ (.put _ _ _ (.empty _ ?_ ?_ ?_) ?_ ?_ ?_) ?_ ?_ ?_)
    ?_ ?_ ?_) ?_ ?_ ?_ <;> decide +kernel

/-- The handles that calls with any slot offset make from an empty table. -/
inductive IndexCalled : Db → Prop
  | empty (db : Db) (hpos : 0 < db.hashCapacity)
      (hpow : db.hashCapacity &&& (db.hashCapacity - 1) = 0)
      (hempty : ∀ b, b < db.hashCapacity → (db.entry b).empty = true) : IndexCalled db
  | put (db : Db) (k off : ℕ) (h : IndexCalled db) (hk : k < u64) (ho : off < u64) :
      IndexCalled (db.efIndexPutEntry k off).2.2
  | remove (db : Db) (k : ℕ) (h : IndexCalled db) : IndexCalled (db.efIndexRemoveByHash k).2

/-- The keys `4` and `8` have the home `0`. The second insertion of `4` has the slot offset `0`:
bucket `0` counts as empty, key `8` behind it is not found, and is inserted once more. Its removal
leaves a copy. -/
theorem efIndexRemoveByHash_leaves_key :
    let db := ((((newMemory 1 4).efIndexPutEntry 4 64).2.2.efIndexPutEntry 8 128).2.2.efIndexPutEntry
      4 0).2.2
    let db := (db.efIndexPutEntry 8 128).2.2
    IndexCalled db ∧ (db.efIndexRemoveByHash 8).1 = .ok ∧
      (db.efIndexRemoveByHash 8).2.efIndexFindEntryUnlocked 8 = .ok ⟨8, 128⟩ ∧
      ¬ db.RemovesExactly 8 := by
  intro db₀ db
  have hleft : (db.efIndexRemoveByHash 8).1 = .ok ∧
      (db.efIndexRemoveByHash 8).2.efIndexFindEntryUnlocked 8 = .ok ⟨8, 128⟩ := by decide +kernel
  refine ⟨?_, hleft.1, hleft.2, ?_⟩
  swap
  · intro hexact
    have hgone := hexact.gone hleft.1
    rw [hleft.2] at hgone
    cases hgone
  refine .put _ _ _ (.put _ _ _ (.put _ _ _ (.put _ _ _
      (.empty _ ?_ ?_ ?_) ?_ ?_) ?_ ?_) ?_ ?_) ?_ ?_ <;>
    decide +kernel

end Db

end Endfields.Model
