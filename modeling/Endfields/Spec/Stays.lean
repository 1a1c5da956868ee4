import Endfields.Spec.Table

/-!
# Removals that move nothing

After each removal `ef_index_remove_by_slot` tries to shrink the table, which moves the slots. The
attempt gets that far only if it passes a series of checks, and all that these ask for is known
before the call.

* `Db.rehashStop`, `Db.resizeAndMove`: the checks of `ef_index_rehash_to` that are made under the
  lock, and what it does once they are passed.
* `Db.SameTable db db'`: the handles agree in the table and in everything else that the checks ask
  for.
* `Db.takeEntry`, `Db.afterRemoval`: the table without the entry of a slot, and the answers to lock
  attempts that are left.
* `Db.removalMoves db i`: the attempt to shrink that follows the removal passes every check.
* `Db.StaysPut db is`: none does when the entries of the slots `is` are removed one after the other.
* **`efIndexRemoveBySlot_still`**: a removal that does not move the slots leaves the view still, and
  the table without the entry.
-/

namespace Endfields.Model

open Endfields.Lib

namespace Db

variable {g : Geometry} {db db' db₁ : Db} {i k : ℕ}

/-! ### The checks of a resize -/

/-- The checks that a rehash makes in its section, up to the size of a buffer: the code of the first
one that stops it.
Source: `ef_index.c`, `ef_index_rehash_to` -/
def rehashStop (db : Db) (newCapacity : ℕ) (allowShrink : Bool) : Option Err :=
  if db.hashCapacity = 0 then some .nullArg
  else if allowShrink ∧ db.hashCapacity ≤ newCapacity then some .grow
  else if allowShrink = false ∧ newCapacity < db.hashCapacity then some .ok
  else if newCapacity = db.hashCapacity then some .ok
  else if allowShrink ∧ db.backend = .file then some .grow
  else if allowShrink ∧ db.hashEntryCount ≠ 0 ∧ newCapacity * 3 ≤ db.hashEntryCount * 4 then some .grow
  else if db.liveEntries db.hashCapacity ≠ [] ∧ db.env.mallocFails then some .oom
  else if db.backend = .memory ∧ db.mapCapacity < efIndexFileSize db.sb.maxSlots newCapacity then
    some .fileSize
  else none

/-- What a rehash does once these checks are passed.
Source: `ef_index.c`, `ef_index_rehash_to` -/
def resizeAndMove (db : Db) (newCapacity : ℕ) : Err × Db :=
  let newSize := efIndexFileSize db.sb.maxSlots newCapacity
  let backup := db.liveEntries db.hashCapacity
  match db.backend with
  | .file =>
      match db.efPortGrowFile newSize with
      | (.ok, db) => db.rehashMove newCapacity backup
      | (err, grown) => (if grown.isMapped then err else .fault, db.efIndexWriteEnd)
  | .memory => rehashMove { db with fileSize := newSize } newCapacity backup

/-- The section of a rehash: the first check that stops it leaves the section, and without one the
slots are moved. -/
lemma efIndexRehashTo_of_begun {db₀ : Db} {newCapacity : ℕ} (hw : db.readonly = false)
    (hpos : 0 < newCapacity) (hpow : newCapacity &&& (newCapacity - 1) = 0)
    (hsmall : newCapacity ≤ 0xFFFF) (hr : db.efIndexWriteBegin = (.ok, db₀)) (allowShrink : Bool) :
    db.efIndexRehashTo newCapacity allowShrink =
      match db₀.rehashStop newCapacity allowShrink with
      | some err => (err, db₀.efIndexWriteEnd)
      | none => db₀.resizeAndMove newCapacity := by
  unfold efIndexRehashTo
  rw [if_neg (by simp [hw]), if_neg (by simp only [hpow, ne_eq, not_true, or_false]; omega),
    if_neg (by omega), hr]
  simp only
  unfold rehashStop
  by_cases h1 : db₀.hashCapacity = 0
  · rw [if_pos h1, if_pos h1]
  rw [if_neg h1, if_neg h1]
  by_cases h2 : allowShrink = true ∧ db₀.hashCapacity ≤ newCapacity
  · rw [if_pos h2, if_pos h2]
  rw [if_neg h2, if_neg h2]
  by_cases h3 : allowShrink = false ∧ newCapacity < db₀.hashCapacity
  · rw [if_pos h3, if_pos h3]
  rw [if_neg h3, if_neg h3]
  by_cases h4 : newCapacity = db₀.hashCapacity
  · rw [if_pos h4, if_pos h4]
  rw [if_neg h4, if_neg h4]
  by_cases h5 : allowShrink = true ∧ db₀.backend = .file
  · rw [if_pos h5, if_pos h5]
  rw [if_neg h5, if_neg h5]
  by_cases h6 : allowShrink = true ∧ db₀.hashEntryCount ≠ 0 ∧ newCapacity * 3 ≤ db₀.hashEntryCount * 4
  · rw [if_pos h6, if_pos h6]
  rw [if_neg h6, if_neg h6]
  by_cases h7 : db₀.liveEntries db₀.hashCapacity ≠ [] ∧ db₀.env.mallocFails = true
  · rw [if_pos h7, if_pos h7]
  rw [if_neg h7, if_neg h7]
  by_cases h8 : db₀.backend = .memory ∧
      db₀.mapCapacity < efIndexFileSize db₀.sb.maxSlots newCapacity
  · rw [if_pos h8, if_pos h8]
  rw [if_neg h8, if_neg h8]
  unfold resizeAndMove
  rcases hback : db₀.backend with _ | _
  · rcases hgrow : db₀.efPortGrowFile (efIndexFileSize db₀.sb.maxSlots newCapacity) with ⟨e, db₁⟩
    cases e <;> simp only [hgrow]
  · rfl

/-- No check stops the rehash exactly if the fields that it looks at are as they have to be. -/
lemma rehashStop_eq_none_iff (newCapacity : ℕ) (allowShrink : Bool) :
    db.rehashStop newCapacity allowShrink = none ↔
      0 < db.hashCapacity ∧ (allowShrink = false → db.hashCapacity < newCapacity) ∧
        (allowShrink = true → newCapacity < db.hashCapacity ∧ db.backend = .memory ∧
          (db.hashEntryCount = 0 ∨ db.hashEntryCount * 4 < newCapacity * 3)) ∧
        (db.liveEntries db.hashCapacity = [] ∨ db.env.mallocFails = false) ∧
        (db.backend = .memory → efIndexFileSize db.sb.maxSlots newCapacity ≤ db.mapCapacity) := by
  have hmalloc : ¬ (db.liveEntries db.hashCapacity ≠ [] ∧ db.env.mallocFails = true) ↔
      db.liveEntries db.hashCapacity = [] ∨ db.env.mallocFails = false := by
    rw [not_and_or, not_not, Bool.not_eq_true]
  have hback : ¬ db.backend = .file ↔ db.backend = .memory := by
    cases db.backend <;> simp
  unfold rehashStop
  rw [← hmalloc]
  split_ifs with h1 h2 h3 h4 h5 h6 h7 h8
  · exact iff_of_false (by simp) fun h => absurd h.1 (by omega)
  · exact iff_of_false (by simp) fun h => absurd (h.2.2.1 h2.1).1 (by omega)
  · exact iff_of_false (by simp) fun h => absurd (h.2.1 h3.1) (by omega)
  · refine iff_of_false (by simp) fun h => ?_
    cases allowShrink with
    | false => exact absurd (h.2.1 rfl) (by omega)
    | true => exact h2 ⟨rfl, h4.ge⟩
  · exact iff_of_false (by simp) fun h => hback.mpr (h.2.2.1 h5.1).2.1 h5.2
  · exact iff_of_false (by simp) fun h => absurd (h.2.2.1 h6.1).2.2 (by omega)
  · exact iff_of_false (by simp) fun h => h.2.2.2.1 h7
  · exact iff_of_false (by simp) fun h => absurd (h.2.2.2.2 h8.1) (by omega)
  · refine iff_of_true rfl ⟨by omega, fun ha => ?_, fun ha => ⟨?_, ?_, ?_⟩, h7, fun hm => ?_⟩
    · by_contra hle
      exact h3 ⟨ha, by omega⟩
    · by_contra hle
      exact h2 ⟨ha, by omega⟩
    · exact hback.mp fun hf => h5 ⟨ha, hf⟩
    · by_contra hcount
      exact h6 ⟨ha, by omega, by omega⟩
    · by_contra hroom
      exact h8 ⟨hm, by omega⟩

/-- The one success that moves nothing is that of a rehash to a capacity that the table has or
exceeds. -/
lemma rehashStop_ok {newCapacity : ℕ} {allowShrink : Bool}
    (h : db.rehashStop newCapacity allowShrink = some .ok) :
    allowShrink = false ∧ newCapacity ≤ db.hashCapacity := by
  unfold rehashStop at h
  split_ifs at h with h1 h2 h3 h4
  all_goals try (cases h; done)
  · exact ⟨h3.1, h3.2.le⟩
  · refine ⟨?_, h4.le⟩
    cases allowShrink with
    | false => rfl
    | true => exact absurd ⟨rfl, h4.ge⟩ h2

/-! ### What the checks ask for -/

/-- An attempt to take the write lock of the index, as far as the environment has a say in it;
before schema v5 there is no lock.
Source: `ef_index.c`, `ef_index_write_begin` -/
def indexAttempt (db : Db) : Bool × Db :=
  if db.sb.schemaVersion < schemaVersion then (false, db) else db.contended

/-- The removal of the entry of slot `i`, without its lock and without what follows it.
Source: `ef_index.c`, `ef_index_remove_by_slot` -/
def takeEntry (db : Db) (i : ℕ) : Db :=
  match db.findSlotLoop (db.efSlotToOffset i) db.hashCapacity with
  | none => db
  | some p => (db.efIndexRemoveByHash (db.entry p).keyHash).2

/-- The capacity that the attempt to shrink asks the lock for.
Source: `ef_index.c`, `ef_index_should_shrink_snap`, `ef_index_pick_shrink_capacity` and the start
of `ef_index_rehash_to` -/
def shrinkTarget (db : Db) : Option ℕ :=
  if db.efIndexShouldShrinkSnap db.hashEntryCount db.hashCapacity then
    let target := efIndexPickShrinkCapacity db.hashEntryCount db.hashCapacity
    if target < 1 ∨ target &&& (target - 1) ≠ 0 ∨ 0xFFFF < target then none else some target
  else none

/-- The shrink of the table moves the slots. -/
def shrinkMoves (db : Db) : Prop :=
  ∃ target ∈ db.shrinkTarget, db.indexAttempt.1 = false ∧
    db.indexAttempt.2.rehashStop target true = none

instance (db : Db) : Decidable db.shrinkMoves :=
  inferInstanceAs (Decidable (∃ target ∈ db.shrinkTarget, _))

/-- **The attempt to shrink that follows the removal of slot `i`'s entry moves the slots.** -/
def removalMoves (db : Db) (i : ℕ) : Prop := (db.indexAttempt.2.takeEntry i).shrinkMoves

instance (db : Db) (i : ℕ) : Decidable (db.removalMoves i) :=
  inferInstanceAs (Decidable (shrinkMoves _))

/-- The answers to lock attempts that a shrink uses up when it moves nothing. -/
def afterShrink (db : Db) : Db := if db.shrinkTarget = none then db else db.indexAttempt.2

/-- The table after a removal that moved nothing. -/
def afterRemoval (db : Db) (i : ℕ) : Db := (db.indexAttempt.2.takeEntry i).afterShrink

/-- The table after removals that moved nothing. -/
def afterRemovals (db : Db) (is : List ℕ) : Db := is.foldl afterRemoval db

/-- **No removal moves the slots** when the entries of the slots of a list are removed one after the
other. -/
inductive StaysPut : Db → List ℕ → Prop
  | nil (db : Db) : StaysPut db []
  | cons {db : Db} {i : ℕ} {is : List ℕ} : ¬ db.removalMoves i → StaysPut (db.afterRemoval i) is →
      StaysPut db (i :: is)

/-- The first removal moves nothing, nor do the others after it. -/
lemma staysPut_cons {is : List ℕ} :
    db.StaysPut (i :: is) ↔ ¬ db.removalMoves i ∧ (db.afterRemoval i).StaysPut is := by
  constructor
  · rintro (_ | ⟨hm, hs⟩)
    exact ⟨hm, hs⟩
  · rintro ⟨hm, hs⟩
    exact .cons hm hs

instance decidableStaysPut : (db : Db) → (is : List ℕ) → Decidable (StaysPut db is)
  | db, [] => isTrue (.nil db)
  | db, i :: is =>
      haveI := decidableStaysPut (db.afterRemoval i) is
      decidable_of_iff _ staysPut_cons.symm

/-! ### Handles with the same table -/

/-- The handles agree in all that a removal and the attempt to shrink ask for. -/
structure SameTable (db db' : Db) : Prop where
  index : db'.index = db.index
  env : db'.env = db.env
  backend : db'.backend = db.backend
  mapCapacity : db'.mapCapacity = db.mapCapacity
  maxSlots : db'.sb.maxSlots = db.sb.maxSlots
  schema : db'.sb.schemaVersion = db.sb.schemaVersion

namespace SameTable

/-- A handle has its own table. -/
lemma refl (db : Db) : SameTable db db := ⟨rfl, rfl, rfl, rfl, rfl, rfl⟩

/-- Either handle has the table of the other. -/
lemma symm (h : SameTable db db') : SameTable db' db :=
  ⟨h.index.symm, h.env.symm, h.backend.symm, h.mapCapacity.symm, h.maxSlots.symm, h.schema.symm⟩

/-- The same table, over two steps. -/
lemma trans (h : SameTable db db') (h' : SameTable db' db₁) : SameTable db db₁ :=
  ⟨h'.index.trans h.index, h'.env.trans h.env, h'.backend.trans h.backend,
    h'.mapCapacity.trans h.mapCapacity, h'.maxSlots.trans h.maxSlots, h'.schema.trans h.schema⟩

/-- The same table has the same capacity. -/
lemma hashCapacity (h : SameTable db db') : db'.hashCapacity = db.hashCapacity :=
  hashCapacity_of_index h.index

/-- The same table has the same count. -/
lemma hashEntryCount (h : SameTable db db') : db'.hashEntryCount = db.hashEntryCount :=
  congrArg Index.count h.index

/-- The environment's answer to a lock attempt is the same, and so is what is left. -/
lemma indexAttempt (h : SameTable db db') : db'.indexAttempt.1 = db.indexAttempt.1 ∧
    SameTable db.indexAttempt.2 db'.indexAttempt.2 := by
  unfold Db.indexAttempt
  rw [h.schema]
  by_cases hs : db.sb.schemaVersion < schemaVersion
  · rw [if_pos hs, if_pos hs]
    exact ⟨rfl, h⟩
  rw [if_neg hs, if_neg hs]
  have henv := h.env
  unfold contended
  rw [henv]
  rcases db.env.contention with _ | ⟨c, cs⟩
  · exact ⟨rfl, h⟩
  · simp only [true_and]
    exact ⟨h.index, rfl, h.backend, h.mapCapacity, h.maxSlots, h.schema⟩

end SameTable

/-! ### The removal of an entry -/

/-- Bucket for bucket, the shift of a removal does the same to equal tables. -/
lemma shiftLoop_congr (fuel pos : ℕ) (hcap : 0 < db.hashCapacity) (hpos : pos < db.hashCapacity)
    (hix : db'.index = db.index) :
    (shiftLoop fuel pos db').map Db.index = (shiftLoop fuel pos db).map Db.index := by
  induction fuel generalizing pos db db' with
  | zero => rfl
  | succ fuel ih =>
      have hc := hashCapacity_of_index hix
      have hnext : (pos + 1) % db.hashCapacity < db.hashCapacity := Nat.mod_lt _ hcap
      have hset : ∀ e, (db'.setEntry pos e).index = (db.setEntry pos e).index := fun e => by
        rw [index_setEntry (by omega), index_setEntry hpos, hix]
      unfold shiftLoop
      dsimp only
      rw [hc, entry_of_index hix hnext]
      split_ifs
      · exact congrArg some (hset _)
      · exact ih _ hcap hnext (hset _)

/-- A removal by key does the same to equal tables. -/
lemma efIndexRemoveByHash_congr (hix : db'.index = db.index) (k : ℕ) :
    (db'.efIndexRemoveByHash k).2.index = (db.efIndexRemoveByHash k).2.index := by
  have hc := hashCapacity_of_index hix
  unfold efIndexRemoveByHash
  rw [hc]
  by_cases h0 : db.hashCapacity = 0
  · rw [if_pos h0, if_pos h0]
    exact hix
  rw [if_neg h0, if_neg h0]
  have hpos : 0 < db.hashCapacity := by omega
  rw [findLoop_congr (hashCapacity_of_index hix) hpos fun _ hp => entry_of_index hix hp]
  rcases hfind : db.findLoop k db.hashCapacity (efHashHome db.hashCapacity k) with _ | p
  · exact hix
  have hshift := shiftLoop_congr (db.hashCapacity * db.hashCapacity + 1) p hpos
    (findLoop_lt hpos hfind) hix
  simp only
  generalize db.hashCapacity * db.hashCapacity + 1 = fuel at hshift ⊢
  generalize shiftLoop fuel p db' = r' at hshift ⊢
  generalize shiftLoop fuel p db = r at hshift ⊢
  rcases r' with _ | db₁
  · rcases r with _ | db₂
    · exact hix
    · cases hshift
  · rcases r with _ | db₂
    · cases hshift
    · have heq : db₁.index = db₂.index := Option.some.inj hshift
      simp only
      have hdec : ∀ d : Db, ({ d with hashEntryCount := d.hashEntryCount - 1 } : Db).index =
          { d.index with count := d.index.count - 1 } := fun _ => rfl
      rw [hdec, hdec, heq]

/-- A removal by key takes the table along, and nothing else that the checks ask for. -/
lemma SameTable.removeByHash (h : SameTable db db') (hcap : db.hashCapacity = g.cap) (k : ℕ) :
    SameTable (db.efIndexRemoveByHash k).2 (db'.efIndexRemoveByHash k).2 := by
  have hview := (efIndexRemoveByHash_spec hcap k).1
  have hview' := (efIndexRemoveByHash_spec (h.hashCapacity.trans hcap) k).1
  have henv := (env_efIndexRemoveByHash db' k).trans
    (h.env.trans (env_efIndexRemoveByHash db k).symm)
  have hindex := efIndexRemoveByHash_congr h.index k
  generalize (db.efIndexRemoveByHash k).2 = db₁ at hview henv hindex ⊢
  generalize (db'.efIndexRemoveByHash k).2 = db₂ at hview' henv hindex ⊢
  have hcore : db₁.core = db.core := congrArg View.core hview
  have hcore' : db₂.core = db'.core := congrArg View.core hview'
  have hsb : db₁.sb = db.sb := congrArg View.sb hview
  have hsb' : db₂.sb = db'.sb := congrArg View.sb hview'
  refine ⟨hindex, henv, ?_, ?_, ?_, ?_⟩
  · exact (congrArg Core.backend hcore').trans (h.backend.trans (congrArg Core.backend hcore).symm)
  · exact (congrArg Core.mapCapacity hcore').trans
      (h.mapCapacity.trans (congrArg Core.mapCapacity hcore).symm)
  · rw [hsb, hsb']
    exact h.maxSlots
  · rw [hsb, hsb']
    exact h.schema

/-- Equal tables are searched for a slot with the same result. -/
lemma SameTable.findSlotLoop (h : SameTable db db') (off : ℕ) :
    db'.findSlotLoop off db'.hashCapacity = db.findSlotLoop off db.hashCapacity := by
  unfold Db.findSlotLoop
  rw [h.hashCapacity]
  refine List.find?_congr fun p hp => ?_
  rw [entry_of_index h.index (List.mem_range.mp hp)]

/-- The same table gives a slot the same offset. -/
lemma SameTable.efSlotToOffset (h : SameTable db db') (i : ℕ) :
    db'.efSlotToOffset i = db.efSlotToOffset i := by
  unfold Db.efSlotToOffset
  rw [h.maxSlots, db'.slotsBase_eq, db.slotsBase_eq, h.hashCapacity]

/-- The removal of a slot's entry does the same to equal tables. -/
lemma SameTable.takeEntry (h : SameTable db db') (hcap : db.hashCapacity = g.cap) (i : ℕ) :
    SameTable (db.takeEntry i) (db'.takeEntry i) := by
  unfold Db.takeEntry
  rw [h.efSlotToOffset, h.findSlotLoop]
  rcases hfind : db.findSlotLoop (db.efSlotToOffset i) db.hashCapacity with _ | p
  · exact h
  · simp only
    rw [entry_of_index h.index (findSlotLoop_spec hfind).1]
    exact h.removeByHash hcap _

/-- The capacity of a table is not changed by the removal of an entry. -/
lemma hashCapacity_takeEntry (hcap : db.hashCapacity = g.cap) (i : ℕ) :
    (db.takeEntry i).hashCapacity = db.hashCapacity := by
  unfold Db.takeEntry
  rcases db.findSlotLoop (db.efSlotToOffset i) db.hashCapacity with _ | p
  · rfl
  · exact congrArg (fun v : View => v.core.hashCapacity) (efIndexRemoveByHash_spec hcap _).1

/-- A lock attempt leaves the capacity alone. -/
lemma hashCapacity_indexAttempt (db : Db) : db.indexAttempt.2.hashCapacity = db.hashCapacity := by
  unfold indexAttempt contended
  split_ifs
  · rfl
  · cases db.env.contention <;> rfl

/-! ### The attempt to shrink -/

/-- The attempt to shrink asks equal tables for the same capacity. -/
lemma SameTable.shrinkTarget (h : SameTable db db') : db'.shrinkTarget = db.shrinkTarget := by
  unfold Db.shrinkTarget efIndexShouldShrinkSnap
  rw [h.hashCapacity, h.hashEntryCount]

/-- A resize of equal tables is stopped by the same check. -/
lemma SameTable.rehashStop (h : SameTable db db') (newCapacity : ℕ) (allowShrink : Bool) :
    db'.rehashStop newCapacity allowShrink = db.rehashStop newCapacity allowShrink := by
  unfold Db.rehashStop
  rw [liveEntries_of_index h.index, h.hashCapacity, h.hashEntryCount, h.backend, h.env, h.mapCapacity,
    h.maxSlots]

/-- The attempt to shrink moves the slots of equal tables alike. -/
lemma SameTable.shrinkMoves (h : SameTable db db') : db'.shrinkMoves ↔ db.shrinkMoves := by
  unfold Db.shrinkMoves
  rw [h.shrinkTarget, h.indexAttempt.1]
  simp only [h.indexAttempt.2.rehashStop]

/-- The same table is shrunk in the same way. -/
lemma SameTable.afterShrink (h : SameTable db db') : SameTable db.afterShrink db'.afterShrink := by
  unfold Db.afterShrink
  rw [h.shrinkTarget]
  split_ifs
  · exact h
  · exact h.indexAttempt.2

/-- A shrink that moves nothing leaves the capacity alone. -/
lemma hashCapacity_afterShrink (db : Db) : db.afterShrink.hashCapacity = db.hashCapacity := by
  unfold Db.afterShrink
  split_ifs
  · rfl
  · exact hashCapacity_indexAttempt db

/-- The removal of a slot's entry leaves the capacity as it is. -/
lemma hashCapacity_afterRemoval (hcap : db.hashCapacity = g.cap) (i : ℕ) :
    (db.afterRemoval i).hashCapacity = g.cap := by
  unfold Db.afterRemoval
  have hcap₁ := (hashCapacity_indexAttempt db).trans hcap
  exact (hashCapacity_afterShrink _).trans ((hashCapacity_takeEntry hcap₁ i).trans hcap₁)

/-- The same table loses the same entries.
Source: `ef_index.c`, `ef_index_remove_by_slot` -/
lemma SameTable.afterRemoval (h : SameTable db db') (hcap : db.hashCapacity = g.cap) (i : ℕ) :
    SameTable (db.afterRemoval i) (db'.afterRemoval i) :=
  (h.indexAttempt.2.takeEntry ((hashCapacity_indexAttempt db).trans hcap) i).afterShrink

/-- The same table loses the same entries, slot after slot. -/
lemma SameTable.afterRemovals (h : SameTable db db') (hcap : db.hashCapacity = g.cap) (is : List ℕ) :
    SameTable (db.afterRemovals is) (db'.afterRemovals is) := by
  induction is generalizing db db' with
  | nil => exact h
  | cons i is ih => exact ih (h.afterRemoval hcap i) (hashCapacity_afterRemoval hcap i)

/-- The removal of a slot's entry moves the slots of equal tables alike. -/
lemma SameTable.removalMoves (h : SameTable db db') (hcap : db.hashCapacity = g.cap) (i : ℕ) :
    db'.removalMoves i ↔ db.removalMoves i :=
  (h.indexAttempt.2.takeEntry ((hashCapacity_indexAttempt db).trans hcap) i).shrinkMoves

/-- A series of removals stays put on equal tables alike. -/
lemma SameTable.staysPut (h : SameTable db db') (hcap : db.hashCapacity = g.cap) {is : List ℕ}
    (hs : StaysPut db is) : StaysPut db' is := by
  induction is generalizing db db' with
  | nil => exact .nil db'
  | cons i is ih =>
      obtain ⟨hmove, hrest⟩ := staysPut_cons.mp hs
      exact .cons (fun hm => hmove ((h.removalMoves hcap i).mp hm))
        (ih (h.afterRemoval hcap i) (hashCapacity_afterRemoval hcap i) hrest)

/-- The removals of one slot. -/
lemma afterRemovals_singleton (db : Db) (i : ℕ) : db.afterRemovals [i] = db.afterRemoval i := by
  unfold afterRemovals
  rw [List.foldl_cons, List.foldl_nil]

/-- The removals of a list stay put when those of its two parts do, one after the other. -/
lemma staysPut_append {is is' : List ℕ} :
    StaysPut db (is ++ is') ↔ StaysPut db is ∧ StaysPut (db.afterRemovals is) is' := by
  induction is generalizing db with
  | nil => exact ⟨fun h => ⟨.nil db, h⟩, fun h => h.2⟩
  | cons i is ih =>
      rw [List.cons_append, staysPut_cons, staysPut_cons, ih, and_assoc]
      rfl

/-! ### A removal that moves nothing -/

/-- The answers to lock attempts that are left once the write section is begun, or refused. -/
lemma env_efIndexWriteBegin (db : Db) : db.efIndexWriteBegin.2.env = db.indexAttempt.2.env := by
  unfold efIndexWriteBegin indexAttempt efSbIndexWriteLockAcquire
  by_cases hs : db.sb.schemaVersion < schemaVersion
  · rw [if_pos hs, if_pos hs]
  rw [if_neg hs, if_neg hs, if_neg hs]
  simp only
  by_cases hbusy : db.contended.1 = true ∨ db.contended.2.sb.indexWriteLock ≠ 0
  · rw [if_pos hbusy]
  · rw [if_neg hbusy]
    unfold efSbIndexWriteSeqStep
    simp only
    split_ifs <;> rfl

/-- The end of a write asks nothing of the system.
Source: `ef_index.c`, `ef_index_write_end` -/
lemma env_efIndexWriteEnd (db : Db) : db.efIndexWriteEnd.env = db.env := by
  unfold efIndexWriteEnd efSbIndexWriteLockRelease efSbIndexWriteSeqStep
  split_ifs <;> rfl

/-- The write section of the index is not entered while another holds its lock. -/
lemma indexAttempt_of_begun (hok : db.efIndexWriteBegin.1 = .ok) : db.indexAttempt.1 = false := by
  unfold efIndexWriteBegin efSbIndexWriteLockAcquire at hok
  unfold indexAttempt
  by_cases hs : db.sb.schemaVersion < schemaVersion
  · rw [if_pos hs]
  rw [if_neg hs, if_neg hs] at hok
  rw [if_neg hs]
  by_cases hbusy : db.contended.1 = true ∨ db.contended.2.sb.indexWriteLock ≠ 0
  · simp only [if_pos hbusy] at hok
    cases hok
  · exact Bool.eq_false_iff.mpr fun hc => hbusy (.inl hc)

namespace SameTable

/-- Handles that agree but for the answers to lock attempts. -/
lemma of_core (hindex : db'.index = db.index) (henv : db'.env = db.env)
    (hcore : db'.core = { db.core with contention := db'.core.contention })
    (hmax : db'.sb.maxSlots = db.sb.maxSlots) (hschema : db'.sb.schemaVersion = db.sb.schemaVersion) :
    SameTable db db' :=
  ⟨hindex, henv, congrArg Core.backend hcore, congrArg Core.mapCapacity hcore, hmax, hschema⟩

/-- A lock attempt changes the lock outcomes alone.
Source: `ef_index.c`, `ef_index_write_begin` -/
lemma indexAttempt_sb (db : Db) : db.indexAttempt.2.sb = db.sb ∧ db.indexAttempt.2.index = db.index ∧
    db.indexAttempt.2.core = { db.core with contention := db.indexAttempt.2.core.contention } := by
  unfold Db.indexAttempt contended
  split_ifs
  · exact ⟨rfl, rfl, rfl⟩
  · cases db.env.contention <;> exact ⟨rfl, rfl, rfl⟩

/-- The lock is taken or refused beside the table. -/
lemma begun (g : Geometry) (db : Db) : SameTable db.indexAttempt.2 db.efIndexWriteBegin.2 := by
  have henv := env_efIndexWriteBegin db
  obtain ⟨hsb, hix, hcore⟩ := indexAttempt_sb db
  obtain ⟨hindex, hbegin⟩ := efIndexWriteBegin_spec g db
  generalize db.efIndexWriteBegin = r at henv hindex hbegin ⊢
  obtain ⟨e, db₁⟩ := r
  simp only at henv hindex hbegin ⊢
  generalize db.indexAttempt.2 = db₀ at hsb hix hcore henv ⊢
  have hsame : db₁.core = { db.core with contention := db₁.core.contention } ∧
      db₁.sb.maxSlots = db.sb.maxSlots ∧ db₁.sb.schemaVersion = db.sb.schemaVersion := by
    rcases hbegin with ⟨-, hstill, -⟩ | ⟨-, -, w, hstill, hview⟩
    · have hsb₁ : db₁.sb = db.sb := hstill.sb
      exact ⟨hstill.core, by rw [hsb₁], by rw [hsb₁]⟩
    · have hsb₁ : db₁.sb = w.held.sb := congrArg View.sb hview
      have hsbw : w.sb = db.sb := hstill.sb
      have hc : db₁.core = w.core := (congrArg View.core hview).trans View.held_core
      refine ⟨?_, ?_, ?_⟩
      · rw [hc]
        exact hstill.core
      · rw [hsb₁, View.held_maxSlots, hsbw]
      · rw [hsb₁, View.held_schemaVersion, hsbw]
  obtain ⟨hcore₁, hmax₁, hschema₁⟩ := hsame
  refine of_core (hindex.trans hix.symm) henv ?_ ?_ ?_
  · rw [hcore]
    exact hcore₁
  · rw [hmax₁, hsb]
  · rw [hschema₁, hsb]

/-- The lock is released beside the table. -/
lemma writeEnd (g : Geometry) (db : Db) : SameTable db db.efIndexWriteEnd := by
  have henv := env_efIndexWriteEnd db
  obtain ⟨hview, hindex⟩ := efIndexWriteEnd_spec g db
  generalize db.efIndexWriteEnd = db' at henv hview hindex ⊢
  have hsb : db'.sb = (db.view g).unheld.sb := congrArg View.sb hview
  have hcore : db'.core = (db.view g).unheld.core := congrArg View.core hview
  have hkeep : (db.view g).unheld.core = db.core ∧ (db.view g).unheld.sb.maxSlots = db.sb.maxSlots ∧
      (db.view g).unheld.sb.schemaVersion = db.sb.schemaVersion := by
    unfold View.unheld
    split_ifs
    · exact ⟨rfl, rfl, rfl⟩
    · exact ⟨rfl, rfl, rfl⟩
  refine of_core hindex henv ?_ ?_ ?_
  · rw [hcore, hkeep.1]
  · rw [hsb, hkeep.2.1]
  · rw [hsb, hkeep.2.2]

/-- A mark on the metadata leaves the table alone.
Source: `endfields.c`, `ef_db_mark_meta_dirty` -/
lemma markMetaDirty (db : Db) : SameTable db db.efDbMarkMetaDirty := ⟨rfl, rfl, rfl, rfl, rfl, rfl⟩

/-- A stored error leaves the table alone. -/
lemma setError (db : Db) (e : Err) : SameTable db (db.setError e) := ⟨rfl, rfl, rfl, rfl, rfl, rfl⟩

end SameTable

/-- The capacity that a shrink asks the lock for passes the checks that come first. -/
lemma shrinkTarget_eq_some {target : ℕ} (h : db.shrinkTarget = some target) :
    db.efIndexShouldShrinkSnap db.hashEntryCount db.hashCapacity = true ∧
      efIndexPickShrinkCapacity db.hashEntryCount db.hashCapacity = target ∧ 0 < target ∧
      target &&& (target - 1) = 0 ∧ target ≤ 0xFFFF := by
  unfold Db.shrinkTarget at h
  simp only at h
  split_ifs at h with hs hbad
  rw [Option.some.injEq] at h
  rw [h] at hbad
  push Not at hbad
  exact ⟨hs, h, by omega, hbad.2.1, hbad.2.2⟩

/-- Without such a capacity the attempt to shrink changes nothing. -/
lemma shrinkAfterRemove_of_none (hw : db.readonly = false) (h : db.shrinkTarget = none) :
    db.shrinkAfterRemove db.hashEntryCount db.hashCapacity = db := by
  unfold Db.shrinkTarget at h
  unfold shrinkAfterRemove efIndexShrink
  by_cases hs : db.efIndexShouldShrinkSnap db.hashEntryCount db.hashCapacity = true
  swap
  · rw [if_neg hs]
  rw [if_pos hs] at h ⊢
  generalize efIndexPickShrinkCapacity db.hashEntryCount db.hashCapacity = target at h ⊢
  by_cases h0 : target = 0
  · rw [if_pos h0]
  rw [if_neg h0]
  unfold efIndexRehashTo
  rw [if_neg (by simp [hw])]
  by_cases h3 : target < 1 ∨ target &&& (target - 1) ≠ 0
  · rw [if_pos h3]
  rw [if_neg h3]
  by_cases h4 : 0xFFFF < target
  · rw [if_pos h4]
  · rw [if_neg (by tauto)] at h
    cases h

/-- **The attempt to shrink that moves nothing** leaves the view still, and the table. -/
lemma shrinkAfterRemove_still (hw : db.readonly = false) (hm : ¬ db.shrinkMoves) :
    let db' := db.shrinkAfterRemove db.hashEntryCount db.hashCapacity
    View.Still (db.view g) (db'.view g) ∧ SameTable db.afterShrink db' := by
  unfold Db.afterShrink
  rcases htarget : db.shrinkTarget with _ | target
  · rw [if_pos rfl, shrinkAfterRemove_of_none hw htarget]
    exact ⟨View.Still.refl _, SameTable.refl db⟩
  rw [if_neg (by simp)]
  obtain ⟨hs, hpick, hpos, hpow, hsmall⟩ := shrinkTarget_eq_some htarget
  have hshrink : db.shrinkAfterRemove db.hashEntryCount db.hashCapacity =
      (db.efIndexRehashTo target true).2 := by
    unfold shrinkAfterRemove efIndexShrink
    rw [if_pos hs, hpick, if_neg (by omega)]
  simp only
  rw [hshrink]
  have hsame := SameTable.begun g db
  have hattempt : db.efIndexWriteBegin.1 = .ok → db.indexAttempt.1 = false := indexAttempt_of_begun
  obtain ⟨-, hbegin⟩ := efIndexWriteBegin_spec g db
  rcases hr : db.efIndexWriteBegin with ⟨e, db₀⟩
  rw [hr] at hsame hattempt hbegin
  simp only at hsame hattempt hbegin
  rcases hbegin with ⟨herr, hstill, -⟩ | ⟨rfl, hfree, w, hstill, hview⟩
  · -- the lock is not taken
    have hrefused : db.efIndexRehashTo target true = (e, db₀) := by
      unfold efIndexRehashTo
      rw [if_neg (by simp [hw]), if_neg (by simp only [hpow, ne_eq, not_true, or_false]; omega),
        if_neg (by omega), hr]
      cases e with
      | ok => exact absurd rfl herr
      | _ => rfl
    rw [hrefused]
    exact ⟨hstill, hsame⟩
  -- a check under the lock stops the resize
  rw [efIndexRehashTo_of_begun hw hpos hpow hsmall hr]
  rcases hstop : db₀.rehashStop target true with _ | err
  · refine absurd ⟨target, htarget, hattempt rfl, ?_⟩ hm
    rw [← hsame.rehashStop]
    exact hstop
  · exact ⟨section_still hfree hstill hview, hsame.trans (SameTable.writeEnd g db₀)⟩

/-- A table of up to 16 buckets is not shrunk. -/
lemma shrinkTarget_of_small (hcap : db.hashCapacity ≤ 16) : db.shrinkTarget = none := by
  unfold Db.shrinkTarget
  simp only
  rw [efIndexPickShrinkCapacity_of_le _ hcap]
  split_ifs with hs hbad
  · rfl
  · exact absurd (Or.inl Nat.zero_lt_one) hbad
  · rfl

/-- A table of 16 buckets or less is never shrunk.
Source: `ef_index.c`, `ef_index_pick_shrink_capacity` -/
lemma not_removalMoves_of_small (hcap : db.hashCapacity = g.cap) (hsmall : g.cap ≤ 16) (i : ℕ) :
    ¬ db.removalMoves i := by
  have hcap₁ := (hashCapacity_indexAttempt db).trans hcap
  have hcap₂ := hashCapacity_takeEntry hcap₁ i
  rintro ⟨target, htarget, -⟩
  rw [shrinkTarget_of_small (by omega)] at htarget
  cases htarget

/-- So with 16 buckets or less every removal stays put. -/
lemma staysPut_of_small (hcap : db.hashCapacity = g.cap) (hsmall : g.cap ≤ 16) (is : List ℕ) :
    db.StaysPut is := by
  induction is generalizing db with
  | nil => exact .nil db
  | cons i is ih =>
      exact .cons (not_removalMoves_of_small hcap hsmall i) (ih (hashCapacity_afterRemoval hcap i))

/-- **The removal of a slot's entry**, when it succeeds, ends with the attempt to shrink, which
finds the lock of the index free.
Source: `ef_index.c`, `ef_index_remove_by_slot` -/
lemma efIndexRemoveBySlot_eq (h : (db.view g).Bound g) (hi : i < g.n)
    (hok : (db.efIndexRemoveBySlot i).1 = .ok) :
    (db.view g).lockFree ∧ ∃ db₁, View.Still (db.view g) (db₁.view g) ∧
      SameTable (db.indexAttempt.2.takeEntry i) db₁ ∧
      (db.efIndexRemoveBySlot i).2 = db₁.shrinkAfterRemove db₁.hashEntryCount db₁.hashCapacity := by
  have hw : db.readonly = false := h.writable
  have hsame := SameTable.begun g db
  unfold Db.efIndexRemoveBySlot at hok ⊢
  rw [if_neg (by simp [hw])] at hok ⊢
  rcases efIndexWriteBegin_cases g db with ⟨herr, -, -⟩ | ⟨hlocked, hl⟩
  · generalize db.efIndexWriteBegin = r at herr hok
    obtain ⟨e, db₁⟩ := r
    cases e with
    | ok => exact absurd rfl herr
    | _ => cases hok
  refine ⟨hl.free, ?_⟩
  generalize db.efIndexWriteBegin = r at hlocked hl hsame hok ⊢
  obtain ⟨e, db₁⟩ := r
  simp only at hlocked hl hsame
  subst hlocked
  simp only at hok ⊢
  have hb₁ := hl.bound h
  have hcap₀ : db.indexAttempt.2.hashCapacity = g.cap := (hashCapacity_indexAttempt db).trans h.cap
  have htake := hsame.takeEntry hcap₀ i
  have hcap₁ : db₁.hashCapacity = g.cap := hb₁.cap
  generalize db.indexAttempt.2 = db₀ at hsame hcap₀ htake ⊢
  -- what follows once the entry is taken off
  have hrest : ∀ db₂ db' : Db, db₂.view g = db₁.view g → SameTable (db₀.takeEntry i) db₂ →
      db₂.efIndexWriteEnd.efDbMarkMetaDirty.shrinkAfterRemove db₂.hashEntryCount db₂.hashCapacity = db' →
      ∃ db₃, View.Still (db.view g) (db₃.view g) ∧ SameTable (db₀.takeEntry i) db₃ ∧
        db' = db₃.shrinkAfterRemove db₃.hashEntryCount db₃.hashCapacity := by
    rintro db₂ _ hview htable rfl
    obtain ⟨hst, -⟩ := hl.leave hview
    have hend := SameTable.writeEnd g db₂
    rw [← hend.hashCapacity, ← hend.hashEntryCount]
    generalize db₂.efIndexWriteEnd = db₃ at hst hend ⊢
    exact ⟨db₃.efDbMarkMetaDirty, hst, htable.trans (hend.trans (SameTable.markMetaDirty db₃)), rfl⟩
  by_cases h0 : db₁.hashCapacity = 0
  · -- without a table there is nothing to shrink
    rw [if_pos h0]
    have hcap : db₀.hashCapacity = 0 := by omega
    have htaken : db₀.takeEntry i = db₀ := by
      unfold Db.takeEntry findSlotLoop
      rw [hcap]
      rfl
    rw [htaken]
    have hst := (hl.leave (rfl : db₁.view g = db₁.view g)).1
    have hend := SameTable.writeEnd g db₁
    generalize db₁.efIndexWriteEnd = db₂ at hst hend ⊢
    have hcap₂ : db₂.hashCapacity = 0 := hend.hashCapacity.trans h0
    have hw₂ : db₂.readonly = false := (congrArg Core.readonly hst.core).trans hw
    refine ⟨db₂, hst, hsame.trans hend, ?_⟩
    exact (shrinkAfterRemove_of_none hw₂ (shrinkTarget_of_small (by omega))).symm
  rw [if_neg h0] at hok ⊢
  have hoff : db₁.efSlotToOffset i ≠ 0 := by
    rw [efSlotToOffset_of_lt hb₁ hi]
    exact g.ptr_ne_zero i
  rw [if_neg hoff] at hok ⊢
  unfold Db.takeEntry at htake
  rcases hfind : db₁.findSlotLoop (db₁.efSlotToOffset i) db₁.hashCapacity with _ | p
  · rw [hfind] at htake
    simp only
    exact hrest db₁ _ rfl htake rfl
  rw [hfind] at htake hok
  simp only at htake hok ⊢
  have hview := (efIndexRemoveByHash_spec hcap₁ (db₁.entry p).keyHash).1
  generalize db₁.efIndexRemoveByHash (db₁.entry p).keyHash = r at htake hok hview ⊢
  obtain ⟨e, db₂⟩ := r
  cases e with
  | ok => exact hrest db₂ _ hview htake rfl
  | notFound => exact hrest db₂ _ hview htake rfl
  | _ => cases hok

/-- **The removal of a slot's entry**, when it succeeds and does not move the slots. -/
lemma efIndexRemoveBySlot_still (h : (db.view g).Bound g) (hi : i < g.n) (hm : ¬ db.removalMoves i)
    (hok : (db.efIndexRemoveBySlot i).1 = .ok) :
    View.Still (db.view g) ((db.efIndexRemoveBySlot i).2.view g) ∧
      SameTable (db.afterRemoval i) (db.efIndexRemoveBySlot i).2 := by
  obtain ⟨-, db₁, hst, htable, heq⟩ := efIndexRemoveBySlot_eq h hi hok
  have hw₁ : db₁.readonly = false := (congrArg Core.readonly hst.core).trans h.writable
  obtain ⟨hstill, hlast⟩ := shrinkAfterRemove_still (g := g) hw₁ fun hmoves =>
    hm (htable.shrinkMoves.mp hmoves)
  rw [heq]
  exact ⟨hst.trans hstill, htable.afterShrink.trans hlast⟩

end Db

end Endfields.Model
