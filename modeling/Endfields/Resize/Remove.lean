import Endfields.Resize.Rehash

/-!
# A removal that shrinks the table

`ef_index_remove` shrinks the table on its way out, to a capacity picked from the entry count of the
handle, and ignores what the shrink returns.

* `Db.KeyRemoved g db k db'`: the handle between the removal and the attempt to shrink.
* `Db.RemovesOnly db k db'`: the key is gone, and every other key hash leads where it led.
* **`efIndexRemove_removes_only_iff`**: a successful removal takes off its key only, if and only if
  the attempt to shrink does not lose a key (`Db.ShrinkLoses`).
* `efIndexRemove_loses_key`: a reopened database of 32 buckets, where it does.
-/

namespace Endfields.Model

open Endfields.Lib

namespace Db

/-- The key hash is no longer found, and every other one leads to the slot it led to. -/
structure RemovesOnly (db : Db) (k : ℕ) (db' : Db) : Prop where
  gone : db'.resolve k = .error .notFound
  others : ∀ k', k' ≠ k → db'.resolve k' = db.resolve k'

/-- The keys that are left once `k` is taken off, in table order. -/
def entriesWithout (db : Db) (k : ℕ) : List (ℕ × ℕ) :=
  RobinHood.entries db.hashCapacity
    (RobinHood.delete db.hashCapacity (efHashHome db.hashCapacity) k db.table)

/-- The attempt to shrink that follows the removal of `k` loses a key. The count of the handle, less
one, calls for it, every check of the resize passes (its lock attempt is the second of the call),
and the keys that are left are too many for the capacity picked, or do not go into it one after the
other.
Source: `ef_index.c`, end of `ef_index_remove` -/
structure ShrinkLoses (db : Db) (k : ℕ) : Prop where
  shrinks : db.efIndexShouldShrinkSnap (db.hashEntryCount - 1) db.hashCapacity = true
  starts : RehashStarts { db with hashEntryCount := db.hashEntryCount - 1, env := db.contended.2.env }
    (efIndexPickShrinkCapacity (db.hashEntryCount - 1) db.hashCapacity) true
  loses : efIndexPickShrinkCapacity (db.hashEntryCount - 1) db.hashCapacity <
        (db.entriesWithout k).length ∨
    RobinHood.fills (efIndexPickShrinkCapacity (db.hashEntryCount - 1) db.hashCapacity)
      (efHashHome (efIndexPickShrinkCapacity (db.hashEntryCount - 1) db.hashCapacity))
      (db.entriesWithout k) (fun _ => none) = false

variable {g g' : Geometry} {db db' db₁ db₂ : Db} {k : ℕ}

/-! ### Up to the attempt to shrink -/

/-- The handle after the removal of `k`, with the write lock released. -/
structure KeyRemoved (g : Geometry) (db : Db) (k : ℕ) (db' : Db) : Prop where
  bound : (db'.view g).Bound g
  sb : db'.sb = db.sb
  free : db.sb.indexWriteLock = 0
  env : db'.env = db.contended.2.env
  backend : db'.backend = db.backend
  capacity : db'.hashCapacity = db.hashCapacity
  fileSize : db'.fileSize = db.fileSize
  mapCapacity : db'.mapCapacity = db.mapCapacity
  count : db'.hashEntryCount = db.hashEntryCount - 1
  indexed : db'.Indexed
  table : ∀ p, p < db.hashCapacity →
    db'.table p = RobinHood.delete db.hashCapacity (efHashHome db.hashCapacity) k db.table p
  maps : ∀ k' off, db'.Maps k' off ↔ db.Maps k' off ∧ k' ≠ k

lemma env_efIndexWriteBegin_of_v5 (hs : db.sb.schemaVersion = schemaVersion) :
    db.efIndexWriteBegin.2.env = db.contended.2.env := by
  rw [env_efIndexWriteBegin]
  unfold indexAttempt
  rw [if_neg (by omega)]

lemma KeyRemoved.markMetaDirty (h : KeyRemoved g db k db') : KeyRemoved g db k db'.efDbMarkMetaDirty :=
  ⟨h.bound, h.sb, h.free, h.env, h.backend, h.capacity, h.fileSize, h.mapCapacity, h.count,
    h.indexed.congr rfl rfl, h.table, h.maps⟩

/-- The undo record of the removal is written beside the table. -/
lemma KeyRemoved.append (h : KeyRemoved g db k db') (ha : db'.Apart) (kind : UndoKind) (target aux : ℕ)
    (before : List UInt8) : KeyRemoved g db k (db'.efUndoRecordAppend kind target aux before).2 := by
  have hf := frame_efUndoRecordAppend db' kind target aux before
  obtain ⟨hsb, henv⟩ := sb_efUndoRecordAppend ha kind target aux before
  have hix := hf.index ha
  generalize (db'.efUndoRecordAppend kind target aux before).2 = db'' at hf hsb henv hix ⊢
  have hcap : db'.hashCapacity = db.hashCapacity := h.capacity
  refine ⟨?_, hsb.trans h.sb, h.free, henv.trans h.env, hf.backend.trans h.backend,
    hf.hashCapacity.trans h.capacity, hf.fileSize.trans h.fileSize,
        hf.mapCapacity.trans h.mapCapacity, hf.hashEntryCount.trans h.count,
    h.indexed.of_index hix, fun p hp => ?_, fun k' off => ?_⟩
  · exact h.bound.congr hf.hashCapacity hf.fileSize hf.readonly (congrArg Superblock.maxSlots hsb)
  · exact (table_of_index hix (by omega)).trans (h.table p hp)
  · exact (maps_of_index hix h.indexed.pos k' off).trans (h.maps k' off)

/-- A removal that succeeds comes to its attempt to shrink with the key taken off. -/
lemma efIndexRemove_eq (h : (db.view g).Bound g) (hs : db.sb.schemaVersion = schemaVersion)
    (hix : 0 < db.hashCapacity → db.Indexed) (hap : db.Apart) (key : List UInt8)
    (hok : (db.efIndexRemove key).1 = .ok) :
    ∃ db', KeyRemoved g db (efKeyHash (cString key)) db' ∧
      (db.efIndexRemove key).2 = db'.shrinkAfterRemove (db.hashEntryCount - 1) db.hashCapacity := by
  have hw : db.readonly = false := h.writable
  have henv := env_efIndexWriteBegin_of_v5 hs
  unfold Db.efIndexRemove indexRemoveAt at hok ⊢
  rw [if_neg (by simp [hw])] at hok ⊢
  generalize efKeyHash (cString key) = k at hok ⊢
  rcases efIndexWriteBegin_cases g db with ⟨herr, -, -⟩ | ⟨hlocked, hl⟩
  · generalize db.efIndexWriteBegin = r at herr hok
    obtain ⟨e, db₁⟩ := r
    cases e with
    | ok => exact absurd rfl herr
    | _ => cases hok
  generalize db.efIndexWriteBegin = r at hlocked hl henv hok ⊢
  obtain ⟨e, db₁⟩ := r
  simp only at hlocked hl henv
  subst hlocked
  simp only at hok ⊢
  have hcap := hl.hashCapacity
  by_cases h0 : db₁.hashCapacity = 0
  · rw [if_pos h0] at hok
    cases hok
  rw [if_neg h0] at hok ⊢
  have hpos : 0 < db.hashCapacity := by omega
  by_cases hsnap : db₁.txnActive = true ∧ (db₁.efIndexFindEntryUnlocked k).toOption.isNone = true
  · rw [if_pos hsnap] at hok
    cases hok
  rw [if_neg hsnap] at hok ⊢
  -- the entry is taken off under the lock
  have hb₁ := hl.bound h
  obtain ⟨hindexed, hcap', hmaps, hcount⟩ := ((hix hpos).of_index hl.index).remove k
  have htable := table_efIndexRemoveByHash db₁ (by omega) k
  have henv' := env_efIndexRemoveByHash db₁ k
  obtain ⟨hview, -, -⟩ := efIndexRemoveByHash_spec hb₁.cap k
  have hcount₁ : db₁.hashEntryCount = db.hashEntryCount := congrArg Index.count hl.index
  have hfree : db.sb.indexWriteLock = 0 := hl.free (by rw [← sb_eq, hs])
  generalize db₁.efIndexRemoveByHash k = r at hindexed hcap' hmaps hcount htable henv' hview hok ⊢
  obtain ⟨e, db₂⟩ := r
  simp only at hindexed hcap' hmaps hcount htable henv' hview
  obtain ⟨rfl, -, hcount⟩ : e = .ok ∧ (∃ off, db₁.Maps k off) ∧
      db₂.hashEntryCount = db₁.hashEntryCount - 1 := by
    rcases hcount with hcount | ⟨rfl, -, -⟩
    · exact hcount
    · cases hok
  simp only
  obtain ⟨hst, hix₂⟩ := hl.leave hview
  have hcore := hst.core
  have hremoved : KeyRemoved g db k db₂.efIndexWriteEnd.efDbMarkMetaDirty := by
    refine KeyRemoved.markMetaDirty ⟨hst.bound h, hst.sb, hfree, ?_, congrArg Core.backend hcore,
      congrArg Core.hashCapacity hcore, congrArg Core.fileSize hcore,
          congrArg Core.mapCapacity hcore, ?_,
      hindexed.of_index hix₂, fun p hp => ?_, fun k' off => ?_⟩
    · rw [env_efIndexWriteEnd, henv', henv]
    · rw [show db₂.efIndexWriteEnd.hashEntryCount = db₂.hashEntryCount from congrArg Index.count hix₂,
        hcount, hcount₁]
    · rw [table_of_index hix₂ (by omega), htable, hcap]
      exact RobinHood.delete_congr (fun q hq => table_of_index hl.index hq) hpos k p hp
    · rw [maps_of_index hix₂ hindexed.pos, hmaps, maps_of_index hl.index hpos]
  have hkeeps : db₂.efIndexWriteEnd.efDbMarkMetaDirty.txnActive = db.txnActive ∧
      db₂.efIndexWriteEnd.efDbMarkMetaDirty.undoLogBase = db.undoLogBase :=
    ⟨congrArg Core.txnActive hcore, congrArg Core.undoLogBase hcore⟩
  rw [hcount, hcount₁, hcap', hcap]
  generalize db₂.efIndexWriteEnd.efDbMarkMetaDirty = db₃ at hremoved hkeeps ⊢
  have hap₃ : db₃.Apart := by
    unfold Apart
    rw [hkeeps.1, hkeeps.2, slotsBase_eq, hremoved.capacity, ← slotsBase_eq]
    exact hap
  split
  · exact ⟨_, hremoved.append hap₃ _ _ _ _, rfl⟩
  · exact ⟨_, hremoved, rfl⟩

lemma KeyRemoved.entriesWithout (h : KeyRemoved g db k db') :
    db.entriesWithout k = (db'.liveEntries db'.hashCapacity).map HashEntry.pair := by
  have hmap := map_liveEntries db' db'.hashCapacity
  rw [h.capacity] at hmap ⊢
  exact ((RobinHood.entries_congr h.table).symm.trans hmap.symm)

/-- What the checks of a resize look at. -/
lemma RehashStarts.congr {newCapacity : ℕ} {allowShrink : Bool}
    (h : db.RehashStarts newCapacity allowShrink)
    (hw : db'.readonly = db.readonly) (hsb : db'.sb = db.sb) (henv : db'.env = db.env)
    (hcap : db'.hashCapacity = db.hashCapacity) (hcount : db'.hashEntryCount = db.hashEntryCount)
    (hback : db'.backend = db.backend) (hmap : db'.mapCapacity = db.mapCapacity)
    (hfile : db'.fileSize = db.fileSize)
    (hlive : db.liveEntries db.hashCapacity = [] → db'.liveEntries db'.hashCapacity = []) :
    db'.RehashStarts newCapacity allowShrink where
  writable := hw.trans h.writable
  pos := h.pos
  pow := h.pow
  small := h.small
  free := by
    have hcont : db'.contended.1 = db.contended.1 := by
      unfold contended
      rw [henv]
      split <;> rfl
    unfold indexLockBusy
    rw [hcont, hsb]
    exact h.free
  table := by rw [hcap]; exact h.table
  grows := by rw [hcap]; exact h.grows
  shrinks := by rw [hcap, hback, hcount]; exact h.shrinks
  malloc := by
    rw [henv]
    exact h.malloc.imp hlive id
  room := by rw [hback, hsb, hmap]; exact h.room
  grown := by rw [hback, hfile, hsb, henv]; exact h.grown

/-- The attempt to shrink loses a key exactly if its checks pass on the handle it is made on, and
the entries there do not fit. -/
lemma KeyRemoved.shrinkLoses_iff (h : KeyRemoved g db k db') (hw : db.readonly = false)
    (hpos : 0 < db.hashCapacity) :
    db.ShrinkLoses k ↔ db'.efIndexShouldShrinkSnap (db.hashEntryCount - 1) db.hashCapacity = true ∧
      db'.RehashStarts (efIndexPickShrinkCapacity (db.hashEntryCount - 1) db.hashCapacity) true ∧
      (efIndexPickShrinkCapacity (db.hashEntryCount - 1) db.hashCapacity <
          (db'.liveEntries db'.hashCapacity).length ∨
        db'.refills (efIndexPickShrinkCapacity (db.hashEntryCount - 1) db.hashCapacity) = false) := by
  have hw' : db'.readonly = db.readonly := by
    rw [hw]
    exact h.bound.writable
  have hsnap : db'.efIndexShouldShrinkSnap (db.hashEntryCount - 1) db.hashCapacity =
      db.efIndexShouldShrinkSnap (db.hashEntryCount - 1) db.hashCapacity := by
    unfold efIndexShouldShrinkSnap
    rw [h.capacity]
  have hleft := h.entriesWithout
  have hlen : (db.entriesWithout k).length = (db'.liveEntries db'.hashCapacity).length := by
    rw [hleft, List.length_map]
  unfold refills
  rw [hsnap, ← hleft, ← hlen]
  constructor
  · rintro ⟨hshrinks, hstarts, hloses⟩
    refine ⟨hshrinks, hstarts.congr hw' h.sb h.env h.capacity h.count h.backend h.mapCapacity h.fileSize
      fun hnil => ?_, hloses⟩
    refine List.eq_nil_iff_forall_not_mem.mpr fun e he => ?_
    have hm := ((h.maps _ _).mp ((mem_liveEntries h.indexed.pos e).mp he)).1
    have he' := (mem_liveEntries hpos e).mpr hm
    rw [show db.liveEntries db.hashCapacity = [] from hnil] at he'
    cases he'
  · rintro ⟨hshrinks, hstarts, hloses⟩
    refine ⟨hshrinks, hstarts.congr hw'.symm h.sb.symm h.env.symm h.capacity.symm h.count.symm
      h.backend.symm h.mapCapacity.symm h.fileSize.symm fun hnil => ?_, hloses⟩
    -- with no key left there is none to lose
    rw [hnil] at hleft
    rw [hleft] at hloses
    rcases hloses with hlt | hfail
    · exact absurd hlt (by simp)
    · cases hfail

/-- Read by slot id, a handle whose entries are among those that are left has them all exactly if
the removal took off its key only. -/
lemma removesOnly_iff (hn : g'.n = g.n) (h : (db.view g).Bound g) (h' : (db'.view g').Bound g')
    (hix : db.Indexed) (hix' : db'.Indexed)
    (hent : ∀ k off, db.Maps k off → ∃ i, i < g.n ∧ off = g.ptr i)
    (hsub : ∀ k' off, db'.Maps k' off → ∃ i, i < g.n ∧ off = g'.ptr i ∧ db.Maps k' (g.ptr i) ∧ k' ≠ k) :
    db.RemovesOnly k db' ↔
      ∀ k' i, i < g.n → k' ≠ k → db.Maps k' (g.ptr i) → db'.Maps k' (g'.ptr i) := by
  constructor
  · rintro ⟨-, hothers⟩ k' i hi hne hm
    have hres := hothers k' hne
    rw [resolve_eq_ok h hix.pos hix.readable hi hm] at hres
    exact (maps_of_resolve h' hix'.pos hix'.readable hres).2
  · intro hall
    refine ⟨resolve_eq_notFound hix'.pos hix'.readable fun off hm => ?_, fun k' hne => ?_⟩
    · obtain ⟨-, -, -, -, hne⟩ := hsub k off hm
      exact hne rfl
    · refine resolve_congr_ids hn h h' hix.pos hix'.pos hix.readable hix'.readable ?_ ?_
      · intro off hm
        obtain ⟨i, hi, rfl, hm', -⟩ := hsub k' off hm
        exact ⟨i, hi, rfl, hm'⟩
      · intro off hm
        obtain ⟨i, hi, rfl⟩ := hent k' off hm
        exact ⟨i, hi, rfl, hall k' i hi hne hm⟩

/-- A handle with the entries that are left. -/
lemma KeyRemoved.removesOnly_of_same (h : KeyRemoved g db k db₁) (hb : (db.view g).Bound g)
    (hix : db.Indexed) (hent : ∀ k off, db.Maps k off → ∃ i, i < g.n ∧ off = g.ptr i)
    (hst : View.Still (db₁.view g) (db'.view g)) (hindex : db'.index = db₁.index) :
    db.RemovesOnly k db' := by
  have hmaps : ∀ k' off, db'.Maps k' off ↔ db.Maps k' off ∧ k' ≠ k := fun k' off =>
    (maps_of_index hindex h.indexed.pos k' off).trans (h.maps k' off)
  refine (removesOnly_iff rfl hb (hst.bound h.bound) hix (h.indexed.of_index hindex) hent ?_).mpr ?_
  · intro k' off hm
    obtain ⟨hm', hne⟩ := (hmaps k' off).mp hm
    obtain ⟨i, hi, rfl⟩ := hent k' off hm'
    exact ⟨i, hi, rfl, hm', hne⟩
  · exact fun k' i _ hne hm => (hmaps k' _).mpr ⟨hm, hne⟩

/-- A handle whose slots were moved has all entries that are left exactly if they fit. -/
lemma KeyRemoved.removesOnly_of_rehashed (h : KeyRemoved g db k db₁) (hb : (db.view g).Bound g)
    (hix : db.Indexed) (hent : ∀ k off, db.Maps k off → ∃ i, i < g.n ∧ off = g.ptr i)
    (hn : g'.n = g.n) {err : Err} (hr : Rehashed g g' db₁ err db')
    (hok : err = .ok ↔ db₁.refills g'.cap = true)
    (hocc : err ≠ .ok →
      RobinHood.occupied g'.cap db'.table < (db₁.liveEntries db₁.hashCapacity).length) :
    db.RemovesOnly k db' ↔ ¬ (g'.cap < (db₁.liveEntries db₁.hashCapacity).length ∨
      db₁.refills g'.cap = false) := by
  have hcap' : db'.hashCapacity = g'.cap := congrArg Core.hashCapacity hr.core
  rw [removesOnly_iff hn hb (hr.bound h.bound hn) hix hr.indexed hent ?_]
  swap
  · intro k' off hm
    obtain ⟨i, hi, hoff, hm'⟩ := hr.sub k' off hm
    exact ⟨i, hi, hoff, (h.maps k' _).mp hm'⟩
  constructor
  · intro hall hno
    -- every key that is left has its bucket
    have hle := RobinHood.length_le_occupied (n := g'.cap) (t := db'.table)
      (by rw [← hcap']; exact hr.indexed.pos) (nodup_liveEntries h.indexed.readable) ?_
    · rw [List.length_map] at hle
      rcases hno with hlt | hfail
      · have := RobinHood.occupied_le g'.cap db'.table
        omega
      · have := hocc fun hok' => by
          rw [hok.mp hok'] at hfail
          cases hfail
        omega
    · intro k' hk'
      obtain ⟨e, he, rfl⟩ := List.mem_map.mp hk'
      obtain ⟨hm, hne⟩ := (h.maps _ _).mp ((mem_liveEntries h.indexed.pos e).mp he)
      obtain ⟨i, hi, hoff⟩ := hent _ _ hm
      rw [hoff] at hm
      have hm' := hall _ i hi hne hm
      unfold Maps at hm'
      rw [hcap'] at hm'
      exact ⟨_, hm'⟩
  · intro hno k' i hi hne hm
    push Not at hno
    have hok' := hok.mpr (by simpa using hno.2)
    exact hr.all hok' h.indexed.readable hno.1 k' i hi ((h.maps k' _).mpr ⟨hm, hne⟩)

/-- **A removal takes off its key only**: with any number of keys, whenever `ef_index_remove`
returns `EF_OK` the key is gone and every other key hash leads to its slot, if and only if the
attempt to shrink that follows does not lose a key.
Source: `ef_index.c`, `ef_index_remove` -/
theorem efIndexRemove_removes_only_iff (hm : db.Mapped) (hs : db.sb.schemaVersion = schemaVersion)
    (hoff : db.EntriesOk) (hix : db.Indexed) (hap : db.Apart) (key : List UInt8)
    (hok : (db.efIndexRemove key).1 = .ok) :
    db.RemovesOnly (efKeyHash (cString key)) (db.efIndexRemove key).2 ↔
      ¬ db.ShrinkLoses (efKeyHash (cString key)) := by
  have hw : db.readonly = false := by
    by_contra hw
    unfold efIndexRemove indexRemoveAt at hok
    rw [if_pos (by simpa using hw)] at hok
    cases hok
  obtain ⟨g, h⟩ := hm.geometry hw
  have hfit : 64 * g.n < 2 ^ 63 := by
    have hin : g.undoBase ≤ db.fileSize := h.inFile
    have hb := hm.bound
    unfold Geometry.undoBase at hin
    omega
  have hent := hoff.maps h hix.pos
  obtain ⟨db₁, hr, heq⟩ := efIndexRemove_eq h hs (fun _ => hix) hap key hok
  rw [heq]
  generalize efKeyHash (cString key) = k at hr ⊢
  rw [hr.shrinkLoses_iff hw hix.pos]
  have hsame := fun (db' : Db) (hst : View.Still (db₁.view g) (db'.view g)) (hindex : db'.index =
      db₁.index) =>
    hr.removesOnly_of_same h hix hent hst hindex
  unfold shrinkAfterRemove
  by_cases hshrink : db₁.efIndexShouldShrinkSnap (db.hashEntryCount - 1) db.hashCapacity = true
  swap
  · rw [if_neg hshrink]
    exact iff_of_true (hsame db₁ (View.Still.refl _) rfl) fun hno => hshrink hno.1
  rw [if_pos hshrink]
  generalize efIndexPickShrinkCapacity (db.hashEntryCount - 1) db.hashCapacity = newCapacity
  unfold efIndexShrink
  by_cases h0 : newCapacity = 0
  · rw [if_pos h0]
    exact iff_of_true (hsame db₁ (View.Still.refl _) rfl) fun hno => absurd hno.2.1.pos (by omega)
  rw [if_neg h0]
  have hent₁ : 0 < db₁.hashCapacity → ∀ k off, db₁.Maps k off → ∃ i, i < g.n ∧ off = g.ptr i :=
    fun _ k' off hm => hent k' off ((hr.maps k' off).mp hm).1
  have hcases := efIndexRehashTo_cases hr.bound
      ((congrArg Superblock.schemaVersion hr.sb).trans hs) hfit
    hent₁ newCapacity true
  generalize db₁.efIndexRehashTo newCapacity true = r at hcases ⊢
  obtain ⟨err, db'⟩ := r
  simp only at hcases ⊢
  rcases hcases with ⟨hno, hst, hindex, -⟩ | ⟨hst, g', rfl, hn, hre, hok', -, hocc⟩
  · exact iff_of_true (hsame db' hst hindex) fun hc => hno hc.2.1
  · rw [hr.removesOnly_of_rehashed h hix hent hn hre hok' hocc]
    exact not_congr ⟨fun hl => ⟨hshrink, hst, hl⟩, fun hl => hl.2.2⟩

/-- Four keys in 32 buckets, in a database that is then opened again: the handle counts no entry. -/
def fourKeys : Db :=
  let db := newMemory 1 32
  let db := (db.efIndexPut [80] 0).2
  let db := (db.efIndexPut [85] 0).2
  let db := (db.efIndexPut [64] 0).2
  let db := (db.efIndexPut [94] 0).2
  (efOpenMemoryHash db.mem db.fileSize 1 32 false Env.quiet).2

/-- The second lock attempt fails, and the removal does not come to shrink. -/
theorem efIndexRemove_removes_only_iff_of_fourKeys :
    let db : Db := { fourKeys with env := { Env.quiet with contention := [false, true] } }
    (db.efIndexRemove [94]).1 = .ok ∧
      (db.RemovesOnly (efKeyHash (cString [94])) (db.efIndexRemove [94]).2 ↔
        ¬ db.ShrinkLoses (efKeyHash (cString [94]))) := by
  have hrun : let db : Db := { fourKeys with env := { Env.quiet with contention := [false, true] } }
      db.Mapped ∧ db.sb.schemaVersion = schemaVersion ∧ db.EntriesOk ∧ db.hashCapacity = 32 ∧
        (∀ i, i < 32 → ∀ j, j < 32 → ∀ e ∈ db.table i, ∀ e' ∈ db.table j, e.1 = e'.1 → i = j) ∧
        (∀ i, i < 32 → ∀ e ∈ db.table ((i + 1) % 32),
          RobinHood.dist 32 (efHashHome 32 e.1) ((i + 1) % 32) = 0 ∨
            (db.table i).any (fun e' => RobinHood.dist 32 (efHashHome 32 e.1) ((i + 1) % 32) ≤
              RobinHood.dist 32 (efHashHome 32 e'.1) i + 1) = true) ∧
        db.txnActive = false ∧ (db.efIndexRemove [94]).1 = .ok := by
    decide +kernel
  obtain ⟨hm, hs, hoff, hcap, hu, hp, hidle, hok⟩ := hrun
  refine ⟨hok, efIndexRemove_removes_only_iff hm hs hoff ⟨?_, ?_, ?_⟩ (fun hact => ?_) [94] hok⟩
  · rw [hcap]
    norm_num
  · rw [hcap]
    decide
  · unfold TableOk
    rw [hcap]
    exact RobinHood.ok_of_lt (by norm_num) hu hp
  · rw [hidle] at hact
    cases hact

/-- The removal of one key succeeds, and another key is gone. -/
theorem efIndexRemove_loses_key :
    fourKeys.Mapped ∧ fourKeys.backend = .memory ∧ fourKeys.OffsetsOk ∧ fourKeys.hashEntryCount = 0 ∧
      (fourKeys.efIndexRemove [94]).1 = .ok ∧ fourKeys.resolve (efKeyHash [85]) = .ok 0 ∧
      (fourKeys.efIndexRemove [94]).2.resolve (efKeyHash [85]) = .error .notFound := by
  decide +kernel

end Db

end Endfields.Model
