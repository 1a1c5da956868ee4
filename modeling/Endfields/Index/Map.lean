import Endfields.Spec.Open

/-!
# The index as a map

The public index functions on one handle, outside a transaction, from a new database on.

* `Db.IndexOp`, `Db.IndexRun`: the calls, and the handles that any sequence of them leads to,
  whatever the calls return and whatever the environment does.
* `Db.IndexInv g db`: the handle is bound to `g`, its table is in order and its entries lead to
  slots. Every call keeps it, with the geometry that the call leaves (`IndexRun.inv`).
* **`efIndexPut_updates`**: a successful `ef_index_put` is an exact update of the map from key
  hashes to slot ids, also when it rehashed.
-/

namespace Endfields.Model

open Endfields.Lib

namespace Db

/-- The calls on the index. -/
inductive IndexOp
  | put (key : List UInt8) (slotId : ℕ)
  | remove (key : List UInt8)
  | rehash (newCapacity : ℕ)
  | shrink (newCapacity : ℕ)
  | clear

/-- A call on the index. -/
def IndexOp.apply (db : Db) : IndexOp → Err × Db
  | put key slotId => db.efIndexPut key slotId
  | remove key => db.efIndexRemove key
  | rehash newCapacity => db.efIndexRehash newCapacity
  | shrink newCapacity => db.efIndexShrink newCapacity
  | clear => db.efIndexClear

/-- The handles that calls on the index lead to from a new database, in a buffer or in a file. The
slots of a new database fit into its image, whose size is a signed 64-bit number. Before each call
the environment is another one. -/
inductive IndexRun : Db → Prop
  | memory (buffer : Mem) (bufferSize maxSlots hashCapacity : ℕ) (env : Env)
      (hfit : 64 * maxSlots < 2 ^ 63)
      (hok : (efOpenMemoryHash buffer bufferSize maxSlots hashCapacity true env).1 = .ok) :
      IndexRun (efOpenMemoryHash buffer bufferSize maxSlots hashCapacity true env).2
  | file (bytes : Mem) (initialSlots hashCapacity : ℕ) (env : Env)
      (hfit : 64 * initialSlots < 2 ^ 63)
      (hok : (efOpenExHash bytes 0 initialSlots hashCapacity env).1 = .ok) :
      IndexRun (efOpenExHash bytes 0 initialSlots hashCapacity env).2
  | step (db : Db) (h : IndexRun db) (env : Env) (op : IndexOp) :
      IndexRun (op.apply { db with env := env }).2

/-- The handle is bound to `g` outside a transaction, its table is in order, and every entry leads
to a slot. -/
structure IndexInv (g : Geometry) (db : Db) : Prop where
  bound : (db.view g).Bound g
  schema : db.sb.schemaVersion = schemaVersion
  fits : 64 * g.n < 2 ^ 63
  idle : db.txnActive = false
  indexed : 0 < db.hashCapacity → db.Indexed
  entries : 0 < db.hashCapacity → ∀ k off, db.Maps k off → ∃ i, i < g.n ∧ off = g.ptr i

variable {g g' : Geometry} {db db' db₁ db₂ : Db}

/-! ### The invariant -/

namespace IndexInv

/-- A call that left everything but the table. -/
lemma of_still (h : IndexInv g db) (hst : View.Still (db.view g) (db'.view g))
    (hindexed : 0 < db.hashCapacity → db'.Indexed)
    (hent : 0 < db.hashCapacity → ∀ k off, db'.Maps k off → ∃ i, i < g.n ∧ off = g.ptr i) :
    IndexInv g db' := by
  have hcap : db'.hashCapacity = db.hashCapacity := congrArg Core.hashCapacity hst.core
  refine ⟨hst.bound h.bound, ?_, h.fits, ?_, ?_, ?_⟩
  · have hsb : db'.sb = db.sb := hst.sb
    rw [hsb]
    exact h.schema
  · exact (congrArg Core.txnActive hst.core).trans h.idle
  · rw [hcap]
    exact hindexed
  · rw [hcap]
    exact hent

/-- A call that left everything. -/
lemma of_same (h : IndexInv g db) (hst : View.Still (db.view g) (db'.view g))
    (hix : db'.index = db.index) : IndexInv g db' :=
  h.of_still hst (fun hpos => (h.indexed hpos).of_index hix) fun hpos k off hm =>
    h.entries hpos k off ((maps_of_index hix hpos k off).mp hm)

/-- The invariant, after a rehash.
Source: `ef_index.c`, `ef_index_rehash_to` -/
lemma of_rehashed (h : IndexInv g db) (hn : g'.n = g.n) {err : Err} (hr : Rehashed g g' db err db') :
    IndexInv g' db' where
  bound := hr.bound h.bound hn
  schema := by
    rw [hr.sb]
    exact h.schema
  fits := by
    rw [hn]
    exact h.fits
  idle := (congrArg Core.txnActive hr.core).trans h.idle
  indexed _ := hr.indexed
  entries _ k off hm := by
    obtain ⟨i, hi, hoff, -⟩ := hr.sub k off hm
    exact ⟨i, by omega, hoff⟩

/-- A rehash, whatever it returns. -/
lemma rehashTo (h : IndexInv g db) (newCapacity : ℕ) (allowShrink : Bool) :
    ∃ g' : Geometry, g'.n = g.n ∧ IndexInv g' (db.efIndexRehashTo newCapacity allowShrink).2 := by
  rcases efIndexRehashTo_spec h.bound h.schema h.fits h.entries newCapacity allowShrink with
    ⟨hst, hix, -⟩ | ⟨-, -, -, g', -, hn, hr⟩
  · exact ⟨g, rfl, h.of_same hst hix⟩
  · exact ⟨g', hn, h.of_rehashed hn hr⟩

/-- The invariant, after a shrink.
Source: `ef_index.c`, `ef_index_shrink` -/
lemma shrink (h : IndexInv g db) (newCapacity : ℕ) :
    ∃ g' : Geometry, g'.n = g.n ∧ IndexInv g' (db.efIndexShrink newCapacity).2 := by
  unfold efIndexShrink
  split_ifs
  · exact ⟨g, rfl, h⟩
  · exact h.rehashTo newCapacity true

/-- The invariant, after the shrink that follows a removal.
Source: `ef_index.c`, `ef_index_remove` -/
lemma shrinkAfterRemove (h : IndexInv g db) (entries capacity : ℕ) :
    ∃ g' : Geometry, g'.n = g.n ∧ IndexInv g' (db.shrinkAfterRemove entries capacity) := by
  unfold Db.shrinkAfterRemove
  split_ifs
  · exact h.shrink _
  · exact ⟨g, rfl, h⟩

/-- The environment is not part of the invariant. -/
lemma withEnv (h : IndexInv g db) (env : Env) : IndexInv g { db with env := env } :=
  ⟨h.bound.congr rfl rfl rfl rfl, h.schema, h.fits, h.idle,
    fun hpos => (h.indexed hpos).congr rfl rfl, h.entries⟩

/-- The invariant does not look at the marks.
Source: `endfields.c`, `ef_db_mark_meta_dirty` -/
lemma markMetaDirty (h : IndexInv g db) : IndexInv g db.efDbMarkMetaDirty :=
  ⟨h.bound, h.schema, h.fits, h.idle, fun hpos => (h.indexed hpos).congr rfl rfl, h.entries⟩

end IndexInv

/-! ### The calls -/

/-- The invariant, after a removal.
Source: `ef_index.c`, `ef_index_remove` -/
lemma IndexInv.efIndexRemove (h : IndexInv g db) (key : List UInt8) :
    ∃ g' : Geometry, g'.n = g.n ∧ IndexInv g' (db.efIndexRemove key).2 := by
  have hw : db.readonly = false := h.bound.writable
  unfold Db.efIndexRemove indexRemoveAt
  rw [if_neg (by simp [hw])]
  rcases efIndexWriteBegin_cases g db with ⟨herr, hst, hix⟩ | ⟨hok, hl⟩
  · generalize db.efIndexWriteBegin = r at herr hst hix ⊢
    obtain ⟨e, db₁⟩ := r
    have hsame := h.of_same hst hix
    cases e with
    | ok => exact absurd rfl herr
    | _ => exact ⟨g, rfl, hsame⟩
  generalize db.efIndexWriteBegin = r at hok hl ⊢
  obtain ⟨e, db₁⟩ := r
  simp only at hok hl
  subst hok
  simp only
  have hsame : IndexInv g db₁.efIndexWriteEnd := by
    obtain ⟨hst, hix⟩ := hl.leave rfl
    exact h.of_same hst (hix.trans hl.index)
  have hidle₁ : db₁.txnActive = false := (congrArg Core.txnActive hl.core).trans h.idle
  by_cases h0 : db₁.hashCapacity = 0
  · rw [if_pos h0]
    exact ⟨g, rfl, hsame⟩
  rw [if_neg h0, if_neg (by simp [hidle₁])]
  have hcap := hl.hashCapacity
  have hpos : 0 < db.hashCapacity := by omega
  generalize efKeyHash (cString key) = k
  obtain ⟨hindexed, hcap', hmaps, -⟩ := ((h.indexed hpos).of_index hl.index).remove k
  obtain ⟨hview, -, -⟩ := efIndexRemoveByHash_spec (hl.bound h.bound).cap k
  generalize db₁.efIndexRemoveByHash k = r at hindexed hcap' hmaps hview ⊢
  obtain ⟨e, db₂⟩ := r
  simp only at hindexed hcap' hmaps hview
  have hremoved : IndexInv g db₂.efIndexWriteEnd := by
    obtain ⟨hst, hix⟩ := hl.leave hview
    refine h.of_still hst (fun _ => hindexed.of_index hix) fun _ k' off hm => ?_
    have hm₂ := (maps_of_index hix hindexed.pos k' off).mp hm
    exact h.entries hpos k' off ((maps_of_index hl.index hpos k' off).mp ((hmaps k' off).mp hm₂).1)
  cases e with
  | ok =>
      have hidle₂ := hremoved.markMetaDirty.idle
      simp only [hidle₂]
      exact hremoved.markMetaDirty.shrinkAfterRemove _ _
  | _ => exact ⟨g, rfl, hremoved⟩

/-- The invariant, after a clear.
Source: `ef_index.c`, `ef_index_clear` -/
lemma IndexInv.efIndexClear (h : IndexInv g db) :
    ∃ g' : Geometry, g'.n = g.n ∧ IndexInv g' db.efIndexClear.2 := by
  have hw : db.readonly = false := h.bound.writable
  unfold Db.efIndexClear
  rw [if_neg (by simp [hw])]
  rcases efIndexWriteBegin_cases g db with ⟨herr, hst, hix⟩ | ⟨hok, hl⟩
  · generalize db.efIndexWriteBegin = r at herr hst hix ⊢
    obtain ⟨e, db₁⟩ := r
    have hsame := h.of_same hst hix
    cases e with
    | ok => exact absurd rfl herr
    | _ => exact ⟨g, rfl, hsame⟩
  generalize db.efIndexWriteBegin = r at hok hl ⊢
  obtain ⟨e, db₁⟩ := r
  simp only at hok hl
  subst hok
  simp only
  by_cases h0 : db₁.hashCapacity = 0
  · rw [if_pos h0]
    obtain ⟨hst, hix⟩ := hl.leave rfl
    exact ⟨g, rfl, h.of_same hst (hix.trans hl.index)⟩
  rw [if_neg h0]
  have hcap := hl.hashCapacity
  have hcapg : db₁.hashCapacity = g.cap := (hl.bound h.bound).cap
  have hpos : 0 < db.hashCapacity := by omega
  generalize hdb₂ : ({ db₁.zero 64 (db₁.hashCapacity * 16) with
    hashEntryCount := 0 } : Db).efDbMarkMetaDirty = db₂
  have hcap₂ : db₂.hashCapacity = db₁.hashCapacity := by
    rw [← hdb₂]
    rfl
  have hview : db₂.view g = db₁.view g := by
    rw [← hdb₂, hcapg]
    exact view_zero_buckets db₁ g
  have htable : ∀ p, p < db₂.hashCapacity → db₂.table p = none := by
    intro p hp
    rw [hcap₂] at hp
    rw [← hdb₂]
    exact table_zero db₁ hp
  have hpow : db₂.hashCapacity &&& (db₂.hashCapacity - 1) = 0 := by
    rw [hcap₂]
    exact ((h.indexed hpos).of_index hl.index).pow
  obtain ⟨hindexed, hnone⟩ := indexed_of_empty (by omega) hpow htable
  have hcleared : IndexInv g db₂.efIndexWriteEnd := by
    obtain ⟨hst, hix⟩ := hl.leave hview
    refine h.of_still hst (fun _ => hindexed.of_index hix) fun _ k off hm => ?_
    exact absurd ((maps_of_index hix hindexed.pos k off).mp hm) (hnone k off)
  by_cases h16 : 16 < db₂.hashCapacity
  · rw [if_pos h16]
    exact hcleared.shrink _
  · rw [if_neg h16]
    exact ⟨g, rfl, hcleared⟩

/-! ### Insertion -/

/-- Some bucket is empty. -/
def HasEmpty (db : Db) : Prop := ∃ p, p < db.hashCapacity ∧ db.table p = none

/-- The map of `db'` is that of `db` with the key hash `k` led to slot `s`, read by slot id. -/
def Updates (g : Geometry) (db : Db) (k s : ℕ) (g' : Geometry) (db' : Db) : Prop :=
  ∀ k' i, i < g.n → (db'.Maps k' (g'.ptr i) ↔ (db.Maps k' (g.ptr i) ∧ k' ≠ k) ∨ k' = k ∧ i = s)

/-- The handle `db₂` after an insertion under the lock, with the section left. -/
lemma IndexInv.of_put (h : IndexInv g db) (hl : Locked g db db₁) (hpos : 0 < db.hashCapacity)
    {k s : ℕ} (hs : s < g.n) (hview : db₂.view g = db₁.view g) (hindexed : db₂.Indexed)
    (hsub : ∀ k' off, db₂.Maps k' off → db₁.Maps k' off ∨ (⟨k', off⟩ : HashEntry) = ⟨k, g.ptr s⟩) :
    IndexInv g db₂.efIndexWriteEnd ∧
      ∀ k' off, db₂.efIndexWriteEnd.Maps k' off ↔ db₂.Maps k' off := by
  obtain ⟨hst, hix⟩ := hl.leave hview
  have hmaps := maps_of_index hix hindexed.pos
  refine ⟨h.of_still hst (fun _ => hindexed.of_index hix) fun _ k' off hm => ?_, hmaps⟩
  rcases hsub k' off ((hmaps k' off).mp hm) with hold | hnew
  · exact h.entries hpos k' off ((maps_of_index hl.index hpos k' off).mp hold)
  · cases hnew
    exact ⟨s, hs, rfl⟩

/-- The insertion under the lock, and the end of the section. -/
lemma IndexInv.indexPutLocked (h : IndexInv g db) (hl : Locked g db db₁) {k s : ℕ} (hk : k < u64)
    (hs : s < g.n) :
    IndexInv g (db₁.indexPutLocked k (g.ptr s)).2 ∧
      ((db₁.indexPutLocked k (g.ptr s)).1 = .ok → 0 < db.hashCapacity ∧
        (db.HasEmpty → Updates g db k s g (db₁.indexPutLocked k (g.ptr s)).2)) := by
  have hcap := hl.hashCapacity
  unfold Db.indexPutLocked
  by_cases h0 : db.hashCapacity = 0
  · have hnull : db₁.efIndexPutEntry k (g.ptr s) = (.nullArg, false, db₁) := by
      unfold efIndexPutEntry
      rw [if_pos (by omega)]
    obtain ⟨hst, hix⟩ := hl.leave rfl
    rw [hnull]
    exact ⟨h.of_same hst (hix.trans hl.index), fun hok => by cases hok⟩
  have hpos : 0 < db.hashCapacity := by omega
  have h₁ : db₁.Indexed := (h.indexed hpos).of_index hl.index
  have hvalid : HashEntry.Valid ⟨k, g.ptr s⟩ := ⟨hk, g.ptr_lt_u64 hs, g.ptr_ne_zero s⟩
  have hview := view_efIndexPutEntry (hl.bound h.bound).cap k (g.ptr s)
  obtain ⟨hindexed, -, hsub⟩ := h₁.put_sub hvalid
  have hmaps := fun p hp hempty hok => h₁.put_maps hvalid (p := p) hp hempty hok
  simp only at hmaps
  generalize db₁.efIndexPutEntry k (g.ptr s) = r at hview hindexed hsub hmaps ⊢
  obtain ⟨err, added, db₂⟩ := r
  simp only at hview hindexed hsub hmaps
  cases err with
  | ok =>
      simp only
      generalize hdb₃ : (if added = true then
        { db₂ with hashEntryCount := (db₂.hashEntryCount + 1) % u32 } else db₂ : Db) = db₃
      have h₃ : db₃.view g = db₁.view g ∧ db₃.Indexed ∧ ∀ k' off, db₃.Maps k' off ↔
          db₂.Maps k' off := by
        rw [← hdb₃, ← hview]
        cases added with
        | true => exact ⟨rfl, hindexed.congr rfl rfl, fun _ _ => Iff.rfl⟩
        | false => exact ⟨rfl, hindexed, fun _ _ => Iff.rfl⟩
      obtain ⟨hview₃, hindexed₃, hmaps₃⟩ := h₃
      obtain ⟨hinv, hend⟩ := h.of_put hl hpos hs hview₃ hindexed₃ fun k' off hm =>
        hsub k' off ((hmaps₃ k' off).mp hm)
      have hidle := hinv.markMetaDirty.idle
      rw [if_neg (by simp [hidle])]
      refine ⟨hinv.markMetaDirty, fun _ => ⟨hpos, ?_⟩⟩
      rintro ⟨p, hp, hempty⟩ k' i hi
      have hempty₁ : db₁.table p = none := (table_of_index hl.index hp).trans hempty
      show db₃.efIndexWriteEnd.Maps k' (g.ptr i) ↔ _
      rw [hend, hmaps₃, hmaps p (by omega) hempty₁ rfl, maps_of_index hl.index hpos]
      refine or_congr Iff.rfl ?_
      rw [HashEntry.mk.injEq]
      exact and_congr_right fun _ => ⟨g.ptr_inj, fun heq => by rw [heq]⟩
  | _ =>
      have hinv := (h.of_put hl hpos hs hview hindexed hsub).1
      exact ⟨hinv, fun hok => by cases hok⟩

/-- The two maps are the same, read by slot id. -/
def SameKeys (g : Geometry) (db : Db) (g' : Geometry) (db' : Db) : Prop :=
  ∀ k i, i < g.n → (db'.Maps k (g'.ptr i) ↔ db.Maps k (g.ptr i))

/-- A rehash to more buckets that succeeds keeps the keys, and leaves an empty bucket. -/
lemma IndexInv.grown (h : IndexInv g db) (hn : g'.n = g.n) (hpos : 0 < db.hashCapacity)
    (hcap : db.hashCapacity < g'.cap) (hr : Rehashed g g' db .ok db') :
    db'.HasEmpty ∧ SameKeys g db g' db' := by
  have hlen := length_liveEntries_le db db.hashCapacity
  have hcap' : db'.hashCapacity = g'.cap := congrArg Core.hashCapacity hr.core
  constructor
  · refine RobinHood.exists_empty hr.indexed.ok.unique ((db.liveEntries db.hashCapacity).map fun e =>
      (e.keyHash, fixNext g.base g'.base e.slotOffset)) ?_ ?_
    · rintro ⟨k, off⟩ hm
      obtain ⟨i, hi, rfl, hm'⟩ := hr.sub k off hm
      refine List.mem_map.mpr ⟨⟨k, g.ptr i⟩, (mem_liveEntries hpos _).mpr hm', ?_⟩
      rw [fixNext_ptr hn hi]
    · rw [List.length_map]
      omega
  · intro k i hi
    refine ⟨fun hm => ?_, hr.all rfl (h.indexed hpos).readable (by omega) k i hi⟩
    obtain ⟨j, -, heq, hm'⟩ := hr.sub k _ hm
    rwa [g'.ptr_inj heq]

/-- Growing before an insertion, whatever it returns. -/
lemma IndexInv.efIndexGrowForInsert (h : IndexInv g db) :
    ∃ g' : Geometry, g'.n = g.n ∧ IndexInv g' db.efIndexGrowForInsert.2 ∧
      (db.efIndexGrowForInsert.1 = .ok → 0 < db.hashCapacity ∧
        db.efIndexGrowForInsert.2.HasEmpty ∧ SameKeys g db g' db.efIndexGrowForInsert.2) := by
  unfold Db.efIndexGrowForInsert
  rcases efIndexWriteBegin_cases g db with ⟨herr, hst, hix⟩ | ⟨hok, hl⟩
  · generalize db.efIndexWriteBegin = r at herr hst hix ⊢
    obtain ⟨e, db₁⟩ := r
    have hsame := h.of_same hst hix
    cases e with
    | ok => exact absurd rfl herr
    | _ => exact ⟨g, rfl, hsame, fun hok => by cases hok⟩
  generalize db.efIndexWriteBegin = r at hok hl ⊢
  obtain ⟨e, db₁⟩ := r
  simp only at hok hl
  subst hok
  simp only
  obtain ⟨hst, hix⟩ := hl.leave rfl
  have hix' := hix.trans hl.index
  have hsame := h.of_same hst hix'
  have hcap := hl.hashCapacity
  by_cases h0 : db₁.hashCapacity = 0
  · rw [if_pos h0]
    exact ⟨g, rfl, hsame, fun hok => by cases hok⟩
  rw [if_neg h0]
  have hpos : 0 < db.hashCapacity := by omega
  generalize efIndexPickCapacity _ _ = target
  by_cases ht : target = 0 ∨ target ≤ db₁.hashCapacity
  · rw [if_pos ht]
    exact ⟨g, rfl, hsame, fun hok => by cases hok⟩
  rw [if_neg ht]
  have hcap₂ : db₁.efIndexWriteEnd.hashCapacity = db.hashCapacity := hashCapacity_of_index hix'
  have hmaps := maps_of_index hix' hpos
  unfold efIndexRehash
  have hspec := efIndexRehashTo_spec hsame.bound hsame.schema hsame.fits hsame.entries target false
  generalize db₁.efIndexWriteEnd = db₂ at hsame hcap₂ hmaps hspec ⊢
  generalize db₂.efIndexRehashTo target false = r at hspec ⊢
  obtain ⟨err, db₃⟩ := r
  simp only at hspec
  rcases hspec with ⟨hst, hix, hno⟩ | ⟨hpos₂, -, hlt, g', rfl, hn, hr⟩
  · refine ⟨g, rfl, hsame.of_same hst hix, fun hok => ?_⟩
    have hle := (hno hok).2.2
    omega
  · refine ⟨g', hn, hsame.of_rehashed hn hr, fun hok => ?_⟩
    simp only at hok
    subst hok
    obtain ⟨hempty, hkeys⟩ := hsame.grown hn hpos₂ (hlt trivial) hr
    exact ⟨hpos, hempty, fun k i hi => (hkeys k i hi).trans (hmaps k _)⟩

/-- A hash is a word of 64 bits.
Source: `ef_index.c`, `ef_key_hash` -/
lemma efKeyHash_lt (key : List UInt8) : efKeyHash key < u64 := by
  have hfold : ∀ (l : List UInt8) (h : ℕ), h < u64 →
      l.foldl (fun h b => ((h ^^^ b.toNat) * 1099511628211) % u64) h < u64 := by
    intro l
    induction l with
    | nil => exact fun h hh => hh
    | cons b l ih => exact fun h _ => ih _ (Nat.mod_lt _ (by norm_num [u64]))
  unfold efKeyHash
  simp only
  split_ifs
  · norm_num [u64]
  · exact hfold key _ (by norm_num [u64])

/-- **`ef_index_put`**, whatever it returns. -/
lemma IndexInv.efIndexPut (h : IndexInv g db) (key : List UInt8) (s : ℕ) :
    ∃ g' : Geometry, g'.n = g.n ∧ IndexInv g' (db.efIndexPut key s).2 ∧
      ((db.efIndexPut key s).1 = .ok → s < g.n ∧ 0 < db.hashCapacity ∧ 0 < g'.cap ∧
        (db.HasEmpty → Updates g db (efKeyHash (cString key)) s g' (db.efIndexPut key s).2)) := by
  have hw : db.readonly = false := h.bound.writable
  have hk := efKeyHash_lt (cString key)
  unfold Db.efIndexPut indexPutAt
  simp only
  generalize efKeyHash (cString key) = k at hk ⊢
  rw [if_neg (by simp [hw]), if_neg (by simp [h.idle])]
  rcases efIndexWriteBegin_cases g db with ⟨herr, hst, hix⟩ | ⟨hok, hl⟩
  · generalize db.efIndexWriteBegin = r at herr hst hix ⊢
    obtain ⟨e, db₁⟩ := r
    have hsame := h.of_same hst hix
    cases e with
    | ok => exact absurd rfl herr
    | _ => exact ⟨g, rfl, hsame, fun hok => by cases hok⟩
  generalize db.efIndexWriteBegin = r at hok hl ⊢
  obtain ⟨e, db₁⟩ := r
  simp only at hok hl
  subst hok
  simp only
  obtain ⟨hst, hix⟩ := hl.leave rfl
  have hix' := hix.trans hl.index
  have hsame := h.of_same hst hix'
  by_cases hs : s < g.n
  swap
  · rw [if_pos (efSlotToOffset_of_ge (hl.bound h.bound) (by omega))]
    exact ⟨g, rfl, hsame, fun hok => by cases hok⟩
  rw [efSlotToOffset_of_lt (hl.bound h.bound) hs, if_neg (g.ptr_ne_zero s)]
  split_ifs with hgrow
  · -- the handle grows first, and the lock is taken again
    obtain ⟨g', hn, hinv, hgrown⟩ := hsame.efIndexGrowForInsert
    have hcap₂ : db₁.efIndexWriteEnd.hashCapacity = db.hashCapacity := hashCapacity_of_index hix'
    generalize db₁.efIndexWriteEnd.efIndexGrowForInsert = r at hinv hgrown ⊢
    obtain ⟨e, db₃⟩ := r
    simp only at hinv hgrown
    cases e with
    | ok =>
        obtain ⟨hpos₂, hempty, hkeys⟩ := hgrown rfl
        have hpos : 0 < db.hashCapacity := by omega
        simp only
        rcases efIndexWriteBegin_cases g' db₃ with ⟨herr, hst₃, hix₃⟩ | ⟨hok, hl₃⟩
        · generalize db₃.efIndexWriteBegin = r at herr hst₃ hix₃ ⊢
          obtain ⟨e, db₄⟩ := r
          have hsame₃ := hinv.of_same hst₃ hix₃
          cases e with
          | ok => exact absurd rfl herr
          | _ => exact ⟨g', hn, hsame₃, fun hok => by cases hok⟩
        generalize db₃.efIndexWriteBegin = r at hok hl₃ ⊢
        obtain ⟨e, db₄⟩ := r
        simp only at hok hl₃
        subst hok
        simp only
        have hs' : s < g'.n := by omega
        rw [efSlotToOffset_of_lt (hl₃.bound hinv.bound) hs', if_neg (g'.ptr_ne_zero s)]
        obtain ⟨hinv₄, hput⟩ := hinv.indexPutLocked hl₃ hk hs'
        refine ⟨g', hn, hinv₄, fun hok => ?_⟩
        obtain ⟨hpos₃, hupd⟩ := hput hok
        have hcap₃ : db₃.hashCapacity = g'.cap := hinv.bound.cap
        refine ⟨hs, hpos, by omega, fun _ k' i hi => ?_⟩
        rw [hupd hempty k' i (by omega), hkeys k' i hi, maps_of_index hix' hpos]
    | _ => exact ⟨g', hn, hinv, fun hok => by cases hok⟩
  · obtain ⟨hinv, hput⟩ := h.indexPutLocked hl hk hs
    refine ⟨g, rfl, hinv, fun hok => ?_⟩
    obtain ⟨hpos, hupd⟩ := hput hok
    have hcap : db.hashCapacity = g.cap := h.bound.cap
    exact ⟨hs, hpos, by omega, hupd⟩

/-! ### Runs -/

/-- A new database has an empty table.
Source: `endfields.c`, `ef_open_memory_hash` -/
lemma Blank.indexInv (h : Blank g db) (hfit : 64 * g.n < 2 ^ 63) : IndexInv g db := by
  have hcap : db.hashCapacity = g.cap := h.ok.cap
  have hempty : 0 < db.hashCapacity → db.Indexed ∧ ∀ k off, ¬ db.Maps k off := fun hpos =>
    indexed_of_empty hpos (by rw [hcap]; exact efHashCapacityValid_pow h.valid)
      (by rw [hcap]; exact h.table)
  exact ⟨h.ok.toBound, h.sb.schema, hfit, h.idle, fun hpos => (hempty hpos).1,
    fun hpos k off hm => absurd hm ((hempty hpos).2 k off)⟩

/-- A call keeps the invariant, and the slots their number. -/
lemma IndexInv.apply (h : IndexInv g db) (op : IndexOp) :
    ∃ g' : Geometry, g'.n = g.n ∧ IndexInv g' (op.apply db).2 := by
  cases op with
  | put key slotId =>
      obtain ⟨g', hn, hput, -⟩ := h.efIndexPut key slotId
      exact ⟨g', hn, hput⟩
  | remove key => exact h.efIndexRemove key
  | rehash newCapacity => exact h.rehashTo newCapacity false
  | shrink newCapacity => exact h.shrink newCapacity
  | clear => exact h.efIndexClear

/-- **Every handle that calls on the index lead to satisfies the invariant.** -/
lemma IndexRun.inv (h : IndexRun db) : ∃ g, IndexInv g db := by
  induction h with
  | memory buffer bufferSize maxSlots hashCapacity env hfit hok =>
      obtain ⟨g, rfl, rfl, hblank⟩ := (efOpenMemoryHash_built
        (layoutFits_of_valid (efOpenMemoryHash_valid hok) hfit) hok).blank
      exact ⟨g, hblank.indexInv hfit⟩
  | file bytes initialSlots hashCapacity env hfit hok =>
      obtain ⟨g, rfl, rfl, hblank⟩ := (efOpenExHash_built
        (layoutFits_of_valid (efOpenExHash_valid hok) hfit) hok).blank
      exact ⟨g, hblank.indexInv hfit⟩
  | step db _ env op ih =>
      obtain ⟨g, hinv⟩ := ih
      obtain ⟨g', -, hinv'⟩ := (hinv.withEnv env).apply op
      exact ⟨g', hinv'⟩

/-- **A successful put is an exact update of the map**: on every handle that calls on the index lead
to from a new database, with an empty bucket in its table, a put that returns `EF_OK` leads the
key's hash to the slot and leaves every other key hash as it was, by slot id, in any environment and
also when it rehashed.
Source: `ef_index.c`, `ef_index_put` -/
theorem efIndexPut_updates (hrun : IndexRun db) (env : Env) (hempty : db.HasEmpty)
    (key : List UInt8) (slotId : ℕ)
    (hok : (({ db with env := env } : Db).efIndexPut key slotId).1 = .ok) :
    let db' := (({ db with env := env } : Db).efIndexPut key slotId).2
    db'.resolve (efKeyHash (cString key)) = .ok slotId ∧
      ∀ k, k ≠ efKeyHash (cString key) → db'.resolve k = db.resolve k := by
  obtain ⟨g, hinv⟩ := hrun.inv
  obtain ⟨g', hn, hinv', hput⟩ := (hinv.withEnv env).efIndexPut key slotId
  obtain ⟨hs, hpos, hpos', hupd⟩ := hput hok
  have hupd := hupd hempty
  generalize (({ db with env := env } : Db).efIndexPut key slotId).2 = db' at hinv' hupd ⊢
  generalize efKeyHash (cString key) = k at hupd ⊢
  have hcap' : db'.hashCapacity = g'.cap := hinv'.bound.cap
  rw [← hcap'] at hpos'
  have hread := (hinv.indexed hpos).readable
  have hread' := (hinv'.indexed hpos').readable
  refine ⟨?_, fun k' hk' => ?_⟩
  · exact resolve_eq_ok hinv'.bound hpos' hread' (by omega) ((hupd k slotId hs).mpr (.inr ⟨rfl, rfl⟩))
  · have hsame : ∀ i, i < g.n → (db'.Maps k' (g'.ptr i) ↔ db.Maps k' (g.ptr i)) := by
      intro i hi
      refine (hupd k' i hi).trans ⟨fun hm => ?_, fun hm => .inl ⟨hm, hk'⟩⟩
      rcases hm with ⟨hm, -⟩ | ⟨hkk, -⟩
      · exact hm
      · exact absurd hkk hk'
    refine resolve_congr_ids hn hinv.bound hinv'.bound hpos hpos' hread hread' ?_ ?_
    · intro off hm
      obtain ⟨i, hi, rfl⟩ := hinv'.entries hpos' k' off hm
      exact ⟨i, by omega, rfl, (hsame i (by omega)).mp hm⟩
    · intro off hm
      obtain ⟨i, hi, rfl⟩ := hinv.entries hpos k' off hm
      exact ⟨i, hi, rfl, (hsame i hi).mpr hm⟩

/-- A series of calls on the index, in a quiet environment. -/
def callAll (db : Db) (calls : List IndexOp) : Db :=
  calls.foldl (fun db op => (op.apply { db with env := Env.quiet }).2) db

/-- A run goes on with any series of calls. -/
lemma IndexRun.callAll (h : IndexRun db) (calls : List IndexOp) : IndexRun (db.callAll calls) := by
  induction calls generalizing db with
  | nil => exact h
  | cons op calls ih => exact ih (.step db h Env.quiet op)

/-- A table of four buckets over four slots, in a larger buffer. -/
def fourBuckets : Db := (efOpenMemoryHash (fun _ => 0) 131840 4 4 true Env.quiet).2

/-- The table of the counterexample is reachable. -/
lemma indexRun_fourBuckets : IndexRun fourBuckets :=
  .memory _ _ _ _ _ (by norm_num) (by decide +kernel)

/-- Three keys: `a` and `e` share the home bucket 0, so that `e` displaces `b` from bucket 1. -/
def threeKeys : Db := fourBuckets.callAll [.put [97] 2, .put [98] 0, .put [101] 1]

/-- The fourth key makes the table rehash to 16 buckets, and the slots move. -/
theorem efIndexPut_updates_of_rehash :
    let db' := (({ threeKeys with env := Env.quiet } : Db).efIndexPut [108] 3).2
    (threeKeys.hashCapacity = 4 ∧ threeKeys.efOffsetToSlotId (threeKeys.entry 1).slotOffset = .ok 1 ∧
      db'.hashCapacity = 16) ∧
      db'.resolve (efKeyHash (cString [108])) = .ok 3 ∧
        ∀ k, k ≠ efKeyHash (cString [108]) → db'.resolve k = threeKeys.resolve k :=
  ⟨by decide +kernel, efIndexPut_updates (indexRun_fourBuckets.callAll _) Env.quiet
    ⟨3, by decide +kernel, by decide +kernel⟩ [108] 3 (by decide +kernel)⟩

end Db

end Endfields.Model
