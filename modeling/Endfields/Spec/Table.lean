import Endfields.Lib.RobinHood
import Endfields.Spec.Index

/-!
# The hash index as a Robin Hood table

The loops of `ef_index.c` run on mapped buckets; read as a table they are the loops of
`Lib.RobinHood`.

* `Db.table`: the buckets of a handle, an empty bucket being `none`.
* `findLoop_eq`, `shiftLoop_eq`, `putEntryLoop_eq`: the three loops on the table.
* `Db.Indexed`: the capacity is a power of two and the table is in order. Insertion and removal keep
  it (`Indexed.put`, `Indexed.remove`), and a lookup reads the entries as a map
  (`resolve_eq_ok_iff`).
-/

namespace Endfields.Model

open Endfields.Lib

namespace Db

/-- The buckets of the index as a table. -/
def table (db : Db) (p : ℕ) : Option (ℕ × ℕ) :=
  if (db.entry p).slotOffset = 0 then none
  else some ((db.entry p).keyHash, (db.entry p).slotOffset)

/-- The table's order, with the home buckets of the code. -/
def TableOk (db : Db) : Prop :=
  RobinHood.Ok db.hashCapacity (efHashHome db.hashCapacity) db.table

/-- Every key hash is in one bucket, and found from its home. -/
def TableReadable (db : Db) : Prop :=
  RobinHood.Readable db.hashCapacity (efHashHome db.hashCapacity) db.table

variable {db db' : Db} {p k off i j fuel : ℕ} {e : HashEntry}

/-- The home of a key is a bucket.
Source: `ef_index.c`, `ef_hash_home` -/
lemma efHashHome_lt {cap : ℕ} (hcap : 0 < cap) (k : ℕ) : efHashHome cap k < cap := by
  have hle : k &&& (cap - 1) ≤ cap - 1 := Nat.and_le_right
  unfold efHashHome
  omega

/-- The probe distance is that of the abstract table.
Source: `ef_index.c`, `ef_hash_probe_dist` -/
lemma efHashProbeDist_eq (cap h p : ℕ) : efHashProbeDist cap h p = RobinHood.dist cap h p := rfl

/-- A bucket has no entry exactly if its slot offset is `0`. -/
lemma table_eq_none_iff : db.table p = none ↔ (db.entry p).empty = true := by
  unfold table HashEntry.empty
  rw [decide_eq_true_eq]
  split_ifs with h0
  · simp [h0]
  · simp [h0]

/-- The entry of a bucket that is not empty. -/
lemma table_eq_some (h : (db.entry p).empty = false) :
    db.table p = some ((db.entry p).keyHash, (db.entry p).slotOffset) := by
  unfold table
  rw [if_neg]
  simpa [HashEntry.empty] using h

/-- The entry of a bucket, word by word. -/
lemma table_eq_some_iff : db.table p = some (k, off) ↔
    off ≠ 0 ∧ (db.entry p).keyHash = k ∧ (db.entry p).slotOffset = off := by
  unfold table
  split_ifs with h0
  · constructor
    · intro h
      cases h
    · rintro ⟨hne, -, rfl⟩
      exact absurd h0 hne
  · simp only [Option.some.injEq, Prod.mk.injEq]
    constructor
    · rintro ⟨rfl, rfl⟩
      exact ⟨h0, rfl, rfl⟩
    · rintro ⟨-, hk, ho⟩
      exact ⟨hk, ho⟩

/-- A bucket write on the table. -/
lemma table_setEntry (hk : k < u64) (ho : off < u64) (hne : off ≠ 0) :
    (db.setEntry p ⟨k, off⟩).table = Function.update db.table p (some (k, off)) := by
  funext q
  unfold table
  rw [entry_setEntry, Function.update_apply]
  by_cases hq : q = p
  · rw [if_pos hq, if_pos hq]
    simp only [Nat.mod_eq_of_lt hk, Nat.mod_eq_of_lt ho, if_neg hne]
  · rw [if_neg hq, if_neg hq]

/-- A cleared bucket has no entry. -/
lemma table_clearEntry : (db.setEntry p ⟨0, 0⟩).table = Function.update db.table p none := by
  funext q
  unfold table
  rw [entry_setEntry, Function.update_apply]
  by_cases hq : q = p
  · rw [if_pos hq, if_pos hq]
    exact if_pos rfl
  · rw [if_neg hq, if_neg hq]

/-- The entry of an occupied bucket, moved. -/
lemma table_moveEntry (h : (db.entry i).empty = false) :
    (db.setEntry p (db.entry i)).table =
      Function.update db.table p (some ((db.entry i).keyHash, (db.entry i).slotOffset)) := by
  have hne : (db.entry i).slotOffset ≠ 0 := by simpa [HashEntry.empty] using h
  exact table_setEntry (entry_keyHash_lt db i) (entry_slotOffset_lt db i) hne

/-! ### The loops -/

/-- The probe loop is the abstract lookup.
Source: `ef_index.c`, `ef_index_find_entry_unlocked` -/
lemma findLoop_eq (db : Db) (k fuel i : ℕ) :
    db.findLoop k fuel i = RobinHood.find db.hashCapacity db.table k fuel i := by
  induction fuel generalizing i with
  | zero => rfl
  | succ fuel ih =>
      unfold findLoop RobinHood.find
      cases hemp : (db.entry (i % db.hashCapacity)).empty with
      | true => rw [table_eq_none_iff.mpr hemp]; simp [hemp]
      | false => rw [table_eq_some hemp]; simp [hemp, ih]

/-- The shift loop is the abstract deletion.
Source: `ef_index.c`, `ef_index_remove_by_hash` -/
lemma shiftLoop_eq (db : Db) (fuel p : ℕ) :
    (shiftLoop fuel p db).map Db.table =
      RobinHood.shift db.hashCapacity (efHashHome db.hashCapacity) fuel p db.table := by
  induction fuel generalizing p db with
  | zero => rfl
  | succ fuel ih =>
      unfold shiftLoop RobinHood.shift
      simp only
      cases hemp : (db.entry ((p + 1) % db.hashCapacity)).empty with
      | true =>
          rw [table_eq_none_iff.mpr hemp]
          simp [table_clearEntry]
      | false =>
          rw [table_eq_some hemp]
          simp only [Bool.false_eq_true, false_or, efHashProbeDist_eq]
          split_ifs with hd
          · simp [table_clearEntry]
          · rw [ih, ← table_moveEntry hemp]
            rfl

/-- The fuel is enough on every table, in order or not: each step brings an entry one bucket closer
to its home. -/
lemma shiftLoop_isSome (hpos : pos < db.hashCapacity) :
    ∃ db', shiftLoop (db.hashCapacity * db.hashCapacity + 1) pos db = some db' ∧
      RobinHood.shift db.hashCapacity (efHashHome db.hashCapacity)
        (db.hashCapacity * db.hashCapacity + 1) pos db.table = some db'.table := by
  have hcap : 0 < db.hashCapacity := by omega
  obtain ⟨t', ht'⟩ := RobinHood.shift_isSome (t := db.table) (efHashHome_lt hcap) hpos
    (Nat.lt_succ_of_le (RobinHood.reachOff_le hcap _ _))
  have heq := shiftLoop_eq db (db.hashCapacity * db.hashCapacity + 1) pos
  rw [ht'] at heq
  rcases hs : shiftLoop (db.hashCapacity * db.hashCapacity + 1) pos db with _ | db₁
  · rw [hs] at heq
    cases heq
  · rw [hs] at heq
    exact ⟨db₁, rfl, by rw [ht']; exact heq.symm⟩

/-- A shift changes neither the capacity nor the count. -/
lemma shiftLoop_keeps (h : shiftLoop fuel p db = some db') :
    db'.hashCapacity = db.hashCapacity ∧ db'.hashEntryCount = db.hashEntryCount := by
  induction fuel generalizing p db with
  | zero => cases h
  | succ fuel ih =>
      unfold shiftLoop at h
      simp only at h
      split_ifs at h
      · cases h
        exact ⟨rfl, rfl⟩
      · obtain ⟨hcap, hcount⟩ := ih h
        exact ⟨hcap, hcount⟩

/-- The result code of an insertion. -/
def outcomeCode : RobinHood.Outcome → Err × Bool
  | .added => (.ok, true)
  | .updated => (.ok, false)
  | .full => (.indexFull, false)

/-- The insertion `r` on a handle does what `r'` does on the table. -/
structure PutAs (db : Db) (r : Err × Bool × Db)
    (r' : RobinHood.Outcome × (ℕ → Option (ℕ × ℕ))) : Prop where
  code : (r.1, r.2.1) = outcomeCode r'.1
  table : r.2.2.table = r'.2
  cap : r.2.2.hashCapacity = db.hashCapacity
  count : r.2.2.hashEntryCount = db.hashEntryCount

/-- The parts of an insertion that goes as the abstract one. -/
lemma PutAs.intro {err : Err} {added : Bool} {o : RobinHood.Outcome}
    {t : ℕ → Option (ℕ × ℕ)} (hcode : (err, added) = outcomeCode o) (ht : db'.table = t)
    (hcap : db'.hashCapacity = db.hashCapacity) (hcount : db'.hashEntryCount = db.hashEntryCount) :
    PutAs db (err, added, db') (o, t) :=
  ⟨hcode, ht, hcap, hcount⟩

/-- The insertion loop is the abstract insertion.
Source: `ef_index.c`, `ef_index_put_entry` -/
lemma putEntryLoop_eq (db : Db) (fuel i : ℕ) {k off : ℕ} (c : HashEntry) (hk : k < u64)
    (ho : off < u64) (ho0 : off ≠ 0) (hck : c.keyHash < u64) (hco : c.slotOffset < u64)
    (hc0 : c.slotOffset ≠ 0) :
    PutAs db (putEntryLoop k off fuel i (efHashHome db.hashCapacity c.keyHash) c db)
      (RobinHood.put db.hashCapacity (efHashHome db.hashCapacity) k off fuel i
        (c.keyHash, c.slotOffset) db.table) := by
  induction fuel generalizing i c db with
  | zero =>
      rw [putEntryLoop, RobinHood.put]
      exact PutAs.intro rfl rfl rfl rfl
  | succ fuel ih =>
      rw [putEntryLoop, RobinHood.put]
      by_cases hb : efHashHome db.hashCapacity c.keyHash + db.hashCapacity ≤ i
      · rw [if_pos hb, if_pos hb]
        exact PutAs.intro rfl rfl rfl rfl
      rw [if_neg hb, if_neg hb]
      cases hemp : (db.entry (i % db.hashCapacity)).empty with
      | true =>
          rw [table_eq_none_iff.mpr hemp]
          simp only [hemp, if_true]
          exact PutAs.intro rfl (table_setEntry hck hco hc0) rfl rfl
      | false =>
          rw [table_eq_some hemp]
          simp only [hemp, Bool.false_eq_true, if_false]
          by_cases hkey : (db.entry (i % db.hashCapacity)).keyHash = k
          · rw [if_pos hkey, if_pos hkey]
            exact PutAs.intro rfl (table_setEntry hk ho ho0) rfl rfl
          rw [if_neg hkey, if_neg hkey]
          by_cases hd : efHashProbeDist db.hashCapacity
              (efHashHome db.hashCapacity (db.entry (i % db.hashCapacity)).keyHash)
              (i % db.hashCapacity) <
              efHashProbeDist db.hashCapacity (efHashHome db.hashCapacity c.keyHash)
                (i % db.hashCapacity)
          · have hne : (db.entry (i % db.hashCapacity)).slotOffset ≠ 0 := by
              simpa [HashEntry.empty] using hemp
            rw [if_pos hd, if_pos (efHashProbeDist_eq .. ▸ hd), ← table_setEntry hck hco hc0]
            have hnext := ih (db.setEntry (i % db.hashCapacity) c) (i + 1) _
              (entry_keyHash_lt db (i % db.hashCapacity))
              (entry_slotOffset_lt db (i % db.hashCapacity)) hne
            exact ⟨hnext.code, hnext.table, hnext.cap, hnext.count⟩
          · rw [if_neg hd, if_neg (efHashProbeDist_eq .. ▸ hd)]
            exact ih db (i + 1) c hck hco hc0

/-! ### The index as a map -/

/-- The capacity is a power of two, as the insertion demands, and the table is in order.
Source: `ef_index.c`, `ef_index_put_entry` -/
structure Indexed (db : Db) : Prop where
  pos : 0 < db.hashCapacity
  pow : db.hashCapacity &&& (db.hashCapacity - 1) = 0
  ok : db.TableOk

/-- The table maps the key hash to the slot offset. -/
def Maps (db : Db) (k off : ℕ) : Prop := RobinHood.Mem db.hashCapacity db.table (k, off)

namespace Indexed

/-- The home of a key is a bucket of the table. -/
lemma home_lt (h : db.Indexed) (k : ℕ) : efHashHome db.hashCapacity k < db.hashCapacity :=
  efHashHome_lt h.pos k

/-- Being indexed depends on the capacity and the table. -/
lemma congr (h : db.Indexed) (hcap : db'.hashCapacity = db.hashCapacity)
    (htable : db'.table = db.table) : db'.Indexed where
  pos := by rw [hcap]; exact h.pos
  pow := by rw [hcap]; exact h.pow
  ok := by unfold TableOk; rw [hcap, htable]; exact h.ok

/-- The table is one a lookup can read. -/
lemma readable (h : db.Indexed) : db.TableReadable := h.ok.readable h.home_lt

end Indexed

/-- **Lookup**. -/
lemma resolve_eq_ok_iff (hpos : 0 < db.hashCapacity) (h : db.TableReadable) (e : HashEntry) :
    db.efIndexFindEntryUnlocked k = .ok e ↔ e.keyHash = k ∧ db.Maps k e.slotOffset := by
  have hfind := fun p => RobinHood.find_eq_some_iff (p := p) (k := k) h (efHashHome_lt hpos)
  unfold efIndexFindEntryUnlocked
  rw [if_neg hpos.ne', findLoop_eq]
  constructor
  · intro heq
    rcases hp : RobinHood.find db.hashCapacity db.table k db.hashCapacity
      (efHashHome db.hashCapacity k) with _ | p
    · rw [hp] at heq
      cases heq
    · rw [hp] at heq
      cases heq
      obtain ⟨j, off, rfl, hj⟩ := (hfind p).mp hp
      obtain ⟨-, hkey, hoff⟩ := table_eq_some_iff.mp hj
      refine ⟨hkey, j, ?_⟩
      rw [hj, hoff]
  · rintro ⟨hkey, j, hj⟩
    rw [(hfind (j % db.hashCapacity)).mpr ⟨j, _, rfl, hj⟩]
    obtain ⟨-, hk', ho'⟩ := table_eq_some_iff.mp hj
    have heq : db.entry (j % db.hashCapacity) = e := by
      cases e
      simp only at hkey hk' ho'
      rw [← ho', hkey, ← hk']
    simp only [heq]

/-- A key is not found exactly if no entry has it.
Source: `ef_index.c`, `ef_index_find_entry_unlocked` -/
lemma resolve_eq_notFound_iff (hpos : 0 < db.hashCapacity) (h : db.TableReadable) :
    db.efIndexFindEntryUnlocked k = .error .notFound ↔ ∀ off, ¬ db.Maps k off := by
  have hfind := RobinHood.find_eq_none_iff (k := k) h (efHashHome_lt hpos)
  unfold efIndexFindEntryUnlocked Maps
  rw [if_neg hpos.ne', findLoop_eq, ← hfind]
  rcases RobinHood.find db.hashCapacity db.table k db.hashCapacity
    (efHashHome db.hashCapacity k) with _ | p
  · simp
  · simp

namespace Indexed

/-- Two handles with the same entry for a key resolve it alike. -/
lemma resolve_congr (h : db.Indexed) (h' : db'.Indexed)
    (hmaps : ∀ off, db'.Maps k off ↔ db.Maps k off) :
    db'.efIndexFindEntryUnlocked k = db.efIndexFindEntryUnlocked k := by
  by_cases hex : ∃ off, db.Maps k off
  · obtain ⟨off, hoff⟩ := hex
    rw [(resolve_eq_ok_iff h.pos h.readable ⟨k, off⟩).mpr ⟨rfl, hoff⟩,
      (resolve_eq_ok_iff h'.pos h'.readable ⟨k, off⟩).mpr ⟨rfl, (hmaps off).mpr hoff⟩]
  · push Not at hex
    rw [(resolve_eq_notFound_iff h.pos h.readable).mpr hex,
      (resolve_eq_notFound_iff h'.pos h'.readable).mpr fun off hoff => hex off ((hmaps off).mp hoff)]

/-- **Removal** takes the key off, and nothing else. -/
lemma remove (h : db.Indexed) (k : ℕ) :
    let r := db.efIndexRemoveByHash k
    r.2.Indexed ∧ r.2.hashCapacity = db.hashCapacity ∧
      (∀ k' off, r.2.Maps k' off ↔ db.Maps k' off ∧ k' ≠ k) ∧
      ((r.1 = .ok ∧ (∃ off, db.Maps k off) ∧ r.2.hashEntryCount = db.hashEntryCount - 1) ∨
        (r.1 = .notFound ∧ (∀ off, ¬ db.Maps k off) ∧ r.2 = db)) := by
  unfold efIndexRemoveByHash
  rw [if_neg h.pos.ne', findLoop_eq]
  rcases hp : RobinHood.find db.hashCapacity db.table k db.hashCapacity
    (efHashHome db.hashCapacity k) with _ | p
  · have hnone := (RobinHood.find_eq_none_iff h.readable h.home_lt).mp hp
    refine ⟨h, rfl, fun k' off => ⟨fun hm => ⟨hm, ?_⟩, fun hm => hm.1⟩, .inr ⟨rfl, hnone, rfl⟩⟩
    rintro rfl
    exact hnone off hm
  · obtain ⟨j, off, rfl, hj⟩ := (RobinHood.find_eq_some_iff h.readable h.home_lt).mp hp
    have hlt : j % db.hashCapacity < db.hashCapacity := Nat.mod_lt _ h.pos
    obtain ⟨db₁, hs, ht'⟩ := shiftLoop_isSome hlt
    simp only [hs]
    obtain ⟨hcap, hcount⟩ := shiftLoop_keeps hs
    have hoff : RobinHood.UniqueOff db.hashCapacity (j % db.hashCapacity) db.table :=
      fun i i' e e' _ _ hi hi' hee => h.ok.unique i i' e e' hi hi' hee
    obtain ⟨hok, hmem⟩ := RobinHood.shift_spec h.ok.sorted h.home_lt hlt hoff ht'
    have hindexed : db₁.Indexed := by
      refine ⟨by rw [hcap]; exact h.pos, by rw [hcap]; exact h.pow, ?_⟩
      unfold TableOk
      rw [hcap]
      exact hok
    have hmaps : ∀ k' o, db₁.Maps k' o ↔ db.Maps k' o ∧ k' ≠ k := by
      intro k' o
      unfold Maps
      rw [hcap, hmem]
      constructor
      · rintro ⟨i, hne, hi⟩
        refine ⟨⟨i, hi⟩, ?_⟩
        rintro rfl
        exact hne (h.ok.unique i j _ _ hi hj rfl)
      · rintro ⟨⟨i, hi⟩, hne⟩
        refine ⟨i, fun hij => hne ?_, hi⟩
        rw [hij, hj] at hi
        cases hi
        rfl
    exact ⟨hindexed.congr rfl rfl, hcap, hmaps, .inl ⟨trivial, ⟨off, j, hj⟩,
      congrArg (· - 1) hcount⟩⟩

end Indexed

/-- The removal on the table. -/
lemma table_efIndexRemoveByHash (db : Db) (hpos : 0 < db.hashCapacity) (k : ℕ) :
    (db.efIndexRemoveByHash k).2.table =
      RobinHood.delete db.hashCapacity (efHashHome db.hashCapacity) k db.table := by
  have hshift := fun p => shiftLoop_eq db (db.hashCapacity * db.hashCapacity + 1) p
  unfold efIndexRemoveByHash RobinHood.delete
  rw [if_neg hpos.ne', findLoop_eq]
  generalize db.hashCapacity * db.hashCapacity + 1 = fuel at hshift ⊢
  rcases RobinHood.find db.hashCapacity db.table k db.hashCapacity
    (efHashHome db.hashCapacity k) with _ | p
  · rfl
  · have heq := hshift p
    simp only
    rw [← heq]
    rcases shiftLoop fuel p db with _ | db₁
    · rw [Option.map_none, Option.getD_none]
    · rw [Option.map_some, Option.getD_some]
      rfl

/-- A shift leaves the environment. -/
lemma env_shiftLoop (h : shiftLoop fuel p db = some db') : db'.env = db.env := by
  induction fuel generalizing p db with
  | zero => cases h
  | succ fuel ih =>
      unfold shiftLoop at h
      simp only at h
      split_ifs at h
      · cases h
        rfl
      · exact (ih h).trans rfl

/-- A removal by key hash asks for no lock.
Source: `ef_index.c`, `ef_index_remove_by_hash` -/
lemma env_efIndexRemoveByHash (db : Db) (k : ℕ) : (db.efIndexRemoveByHash k).2.env = db.env := by
  unfold efIndexRemoveByHash
  split_ifs
  · rfl
  rcases db.findLoop k db.hashCapacity (efHashHome db.hashCapacity k) with _ | p
  · rfl
  generalize db.hashCapacity * db.hashCapacity + 1 = fuel
  simp only
  rcases hs : shiftLoop fuel p db with _ | db₁
  · rfl
  · have henv : db₁.env = db.env := env_shiftLoop hs
    exact henv

/-- The insertion on the table. -/
lemma efIndexPutEntry_eq (h : db.Indexed) (hk : k < u64) (ho : off < u64) (ho0 : off ≠ 0) :
    PutAs db (db.efIndexPutEntry k off)
      (RobinHood.put db.hashCapacity (efHashHome db.hashCapacity) k off (2 * db.hashCapacity)
        (efHashHome db.hashCapacity k) (k, off) db.table) := by
  have hput := putEntryLoop_eq db (2 * db.hashCapacity) (efHashHome db.hashCapacity k) ⟨k, off⟩
    hk ho ho0 hk ho ho0
  unfold efIndexPutEntry
  rw [if_neg h.pos.ne', if_neg (by rw [h.pow]; simp)]
  exact hput

/-- Some bucket is empty. -/
lemma countEntries_lt_iff (db : Db) (n : ℕ) :
    db.countEntries n ≤ n ∧ (db.countEntries n < n ↔ ∃ p, p < n ∧ db.table p = none) := by
  induction n with
  | zero => exact ⟨le_rfl, by simp [countEntries]⟩
  | succ n ih =>
      obtain ⟨hle, hiff⟩ := ih
      unfold countEntries
      cases hemp : (db.entry n).empty with
      | true =>
          simp only [if_true, Nat.add_zero]
          exact ⟨by omega, iff_of_true (by omega) ⟨n, by omega, table_eq_none_iff.mpr hemp⟩⟩
      | false =>
          simp only [Bool.false_eq_true, if_false]
          refine ⟨by omega, ?_⟩
          rw [Nat.add_lt_add_iff_right, hiff]
          constructor
          · rintro ⟨p, hp, hnone⟩
            exact ⟨p, by omega, hnone⟩
          · rintro ⟨p, hp, hnone⟩
            refine ⟨p, ?_, hnone⟩
            rcases Nat.lt_succ_iff_lt_or_eq.mp hp with hlt | rfl
            · exact hlt
            · rw [table_eq_some hemp] at hnone
              cases hnone

/-! ### The table of the index -/

section index

variable (hix : db'.index = db.index)

include hix

/-- Equal tables have the same capacity. -/
lemma hashCapacity_of_index : db'.hashCapacity = db.hashCapacity := congrArg Index.cap hix

/-- Equal tables have the same buckets. -/
lemma entry_of_index (hp : p < db.hashCapacity) : db'.entry p = db.entry p := by
  have hentry := congrFun (congrArg Index.entries hix) p
  rwa [index_entries hp, index_entries (by rwa [hashCapacity_of_index hix])] at hentry

/-- Equal tables have the same entries in their buckets. -/
lemma table_of_index (hp : p < db.hashCapacity) : db'.table p = db.table p := by
  unfold table
  rw [entry_of_index hix hp]

/-- Equal tables have the same entries. -/
lemma maps_of_index (hpos : 0 < db.hashCapacity) (k off : ℕ) : db'.Maps k off ↔ db.Maps k off := by
  unfold Maps RobinHood.Mem
  rw [hashCapacity_of_index hix]
  simp only [fun i => table_of_index hix (Nat.mod_lt i hpos)]

/-- A table equal to one in order is in order. -/
lemma Indexed.of_index (h : db.Indexed) : db'.Indexed := by
  have hcap := hashCapacity_of_index hix
  have ht : ∀ i, db'.table (i % db.hashCapacity) = db.table (i % db.hashCapacity) := fun i =>
    table_of_index hix (Nat.mod_lt i h.pos)
  refine ⟨by rw [hcap]; exact h.pos, by rw [hcap]; exact h.pow, ?_⟩
  unfold TableOk
  rw [hcap]
  refine ⟨fun i e he hd => ?_, fun i j e e' he he' => ?_⟩
  · rw [ht] at he ⊢
    exact h.ok.sorted i e he hd
  · rw [ht] at he he'
    exact h.ok.unique i j e e' he he'

/-- Equal tables have the same live entries. -/
lemma liveEntries_of_index : db'.liveEntries db'.hashCapacity = db.liveEntries db.hashCapacity := by
  unfold liveEntries
  rw [hashCapacity_of_index hix]
  refine congrArg (List.filter _) (List.map_congr_left fun p hp => ?_)
  exact entry_of_index hix (List.mem_range.mp hp)

end index

/-- The occupied buckets are the entries of the map. -/
lemma mem_liveEntries (hpos : 0 < db.hashCapacity) (e : HashEntry) :
    e ∈ db.liveEntries db.hashCapacity ↔ db.Maps e.keyHash e.slotOffset := by
  unfold liveEntries
  rw [List.mem_filter, List.mem_map]
  constructor
  · rintro ⟨⟨p, hp, rfl⟩, hne⟩
    refine ⟨p, ?_⟩
    rw [Nat.mod_eq_of_lt (List.mem_range.mp hp)]
    exact table_eq_some (by simpa using hne)
  · rintro ⟨i, hi⟩
    obtain ⟨hne, hkey, hoff⟩ := table_eq_some_iff.mp hi
    have heq : db.entry (i % db.hashCapacity) = e := by
      cases e
      simp only at hkey hoff
      rw [← hkey, ← hoff]
    refine ⟨⟨i % db.hashCapacity, List.mem_range.mpr (Nat.mod_lt _ hpos), heq⟩, ?_⟩
    simp [HashEntry.empty, hne]

/-- The live entries are those of the table. -/
lemma map_liveEntries (db : Db) (n : ℕ) :
    (db.liveEntries n).map (fun e => (e.keyHash, e.slotOffset)) = RobinHood.entries n db.table := by
  unfold liveEntries RobinHood.entries
  rw [List.filter_map, List.map_map, ← List.filterMap_eq_map, ← List.filterMap_eq_filter,
    List.filterMap_filterMap]
  refine List.filterMap_congr fun p _ => ?_
  cases hemp : (db.entry p).empty with
  | true => rw [table_eq_none_iff.mpr hemp]; simp [hemp]
  | false => rw [table_eq_some hemp]; simp [hemp]

/-- Each key hash is in one occupied bucket. -/
lemma nodup_liveEntries (h : db.TableReadable) :
    ((db.liveEntries db.hashCapacity).map HashEntry.keyHash).Nodup := by
  unfold liveEntries
  rw [List.filter_map, List.map_map]
  refine List.Nodup.map_on ?_ (List.nodup_range.filter _)
  intro p hp q hq heq
  obtain ⟨hp, hpe⟩ := List.mem_filter.mp hp
  obtain ⟨hq, hqe⟩ := List.mem_filter.mp hq
  have hp' := Nat.mod_eq_of_lt (List.mem_range.mp hp)
  have hq' := Nat.mod_eq_of_lt (List.mem_range.mp hq)
  have htable : ∀ r, r % db.hashCapacity = r → (db.entry r).empty = false →
      db.table (r % db.hashCapacity) = some ((db.entry r).keyHash, (db.entry r).slotOffset) := by
    intro r hr hne
    rw [hr]
    exact table_eq_some hne
  have huniq := h.unique p q _ _ (htable p hp' (by simpa using hpe)) (htable q hq' (by simpa using hqe))
    heq
  rwa [hp', hq'] at huniq

/-- There are no more live entries than buckets. -/
lemma length_liveEntries_le (db : Db) (n : ℕ) : (db.liveEntries n).length ≤ n := by
  unfold liveEntries
  refine (List.length_filter_le _ _).trans ?_
  simp

/-! ### Slots by key -/

/-- What an offset resolves to depends on the place of the slots and on their number. -/
lemma efOffsetToSlotId_congr (hcap : db'.hashCapacity = db.hashCapacity)
    (hmax : db'.sb.maxSlots = db.sb.maxSlots) (off : ℕ) :
    db'.efOffsetToSlotId off = db.efOffsetToSlotId off := by
  unfold efOffsetToSlotId
  rw [db'.slotsBase_eq, db.slotsBase_eq, hcap, hmax]

/-- The slot a key hash leads to.
Source: `ef_index.c`, `ef_index_get` -/
def resolve (db : Db) (keyHash : ℕ) : Except Err ℕ :=
  match db.efIndexFindEntryUnlocked keyHash with
  | .error err => .error err
  | .ok found => db.efOffsetToSlotId found.slotOffset

/-- The probe for a key depends on the capacity and the buckets alone. -/
lemma findLoop_congr (hcap : db'.hashCapacity = db.hashCapacity) (hpos : 0 < db.hashCapacity)
    (hentry : ∀ p, p < db.hashCapacity → db'.entry p = db.entry p) (fuel pos : ℕ) :
    db'.findLoop k fuel pos = db.findLoop k fuel pos := by
  induction fuel generalizing pos with
  | zero => rfl
  | succ fuel ih =>
      unfold findLoop
      rw [hcap, hentry _ (Nat.mod_lt _ hpos), ih]

/-- What a lookup finds depends on the capacity and the buckets alone. -/
lemma efIndexFindEntryUnlocked_congr (hcap : db'.hashCapacity = db.hashCapacity)
    (hentry : ∀ p, p < db.hashCapacity → db'.entry p = db.entry p) (key : ℕ) :
    db'.efIndexFindEntryUnlocked key = db.efIndexFindEntryUnlocked key := by
  unfold efIndexFindEntryUnlocked
  rw [hcap]
  by_cases h0 : db.hashCapacity = 0
  · rw [if_pos h0, if_pos h0]
  rw [if_neg h0, if_neg h0]
  have hpos : 0 < db.hashCapacity := by omega
  rw [findLoop_congr hcap hpos hentry]
  rcases hfind : db.findLoop key db.hashCapacity (efHashHome db.hashCapacity key) with _ | p
  · rfl
  · simp only
    rw [hentry _ (findLoop_lt hpos hfind)]

/-- Equal tables find the same entry. -/
lemma efIndexFindEntryUnlocked_of_index (hix : db'.index = db.index) (key : ℕ) :
    db'.efIndexFindEntryUnlocked key = db.efIndexFindEntryUnlocked key :=
  efIndexFindEntryUnlocked_congr (hashCapacity_of_index hix) (fun _ hp => entry_of_index hix hp) key

/-- Where a key hash leads depends on the capacity, the buckets and the number of slots. -/
lemma resolve_of_entries (hcap : db'.hashCapacity = db.hashCapacity)
    (hmax : db'.sb.maxSlots = db.sb.maxSlots)
    (hentry : ∀ p, p < db.hashCapacity → db'.entry p = db.entry p) (k : ℕ) :
    db'.resolve k = db.resolve k := by
  unfold resolve
  rw [efIndexFindEntryUnlocked_congr hcap hentry]
  rcases db.efIndexFindEntryUnlocked k with err | e
  · rfl
  · exact efOffsetToSlotId_congr hcap hmax _

/-- Equal tables over as many slots lead a key hash to the same slot. -/
lemma resolve_of_index (hix : db'.index = db.index) (hmax : db'.sb.maxSlots = db.sb.maxSlots) (k : ℕ) :
    db'.resolve k = db.resolve k :=
  resolve_of_entries (hashCapacity_of_index hix) hmax (fun _ hp => entry_of_index hix hp) k

/-- A key with an entry leads to its slot.
Source: `ef_index.c`, `ef_index_get` -/
lemma resolve_eq_ok {g : Geometry} (h : (db.view g).Bound g) (hpos : 0 < db.hashCapacity)
    (ht : db.TableReadable) (hi : i < g.n) (hm : db.Maps k (g.ptr i)) : db.resolve k = .ok i := by
  unfold resolve
  rw [(resolve_eq_ok_iff hpos ht ⟨k, g.ptr i⟩).mpr ⟨rfl, hm⟩]
  exact efOffsetToSlotId_ptr h hi

/-- A key without an entry leads nowhere.
Source: `ef_index.c`, `ef_index_get` -/
lemma resolve_eq_notFound (hpos : 0 < db.hashCapacity) (ht : db.TableReadable)
    (hm : ∀ off, ¬ db.Maps k off) : db.resolve k = .error .notFound := by
  unfold resolve
  rw [(resolve_eq_notFound_iff hpos ht).mpr hm]

/-- A key whose slot is found is in the table. -/
lemma maps_of_resolve {g : Geometry} (h : (db.view g).Bound g) (hpos : 0 < db.hashCapacity)
    (ht : db.TableReadable) (hr : db.resolve k = .ok i) : i < g.n ∧ db.Maps k (g.ptr i) := by
  unfold resolve at hr
  rcases hf : db.efIndexFindEntryUnlocked k with err | e
  · rw [hf] at hr
    cases hr
  · rw [hf] at hr
    obtain ⟨hi, hoff⟩ := (efOffsetToSlotId_eq_ok_iff h _ _).mp hr
    refine ⟨hi, ?_⟩
    rw [← hoff]
    exact ((resolve_eq_ok_iff hpos ht e).mp hf).2

/-- Tables with the same slots for their keys, read with two geometries. -/
lemma resolve_congr_ids {g g' : Geometry} (hg : g'.n = g.n) (h : (db.view g).Bound g)
    (h' : (db'.view g').Bound g') (hpos : 0 < db.hashCapacity) (hpos' : 0 < db'.hashCapacity)
    (ht : db.TableReadable) (ht' : db'.TableReadable)
    (hsub : ∀ off, db'.Maps k off → ∃ i, i < g.n ∧ off = g'.ptr i ∧ db.Maps k (g.ptr i))
    (hall : ∀ off, db.Maps k off → ∃ i, i < g.n ∧ off = g.ptr i ∧ db'.Maps k (g'.ptr i)) :
    db'.resolve k = db.resolve k := by
  by_cases hex : ∃ off, db.Maps k off
  · obtain ⟨off, hm⟩ := hex
    obtain ⟨i, hi, rfl, hm'⟩ := hall off hm
    rw [resolve_eq_ok h hpos ht hi hm, resolve_eq_ok h' hpos' ht' (by omega) hm']
  · push Not at hex
    rw [resolve_eq_notFound hpos ht hex, resolve_eq_notFound hpos' ht' fun off hm => ?_]
    obtain ⟨i, -, -, hm'⟩ := hsub off hm
    exact hex _ hm'

end Db

end Endfields.Model
