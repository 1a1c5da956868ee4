import Endfields.Spec.Rehash

/-!
# A new database

What `ef_open_memory_hash` and `ef_open_ex_hash` leave when they build a new image: a handle bound
to the layout of its sizes, with an empty index, no queue and no transaction.

* `Db.Blank g db`: the handle is bound to `g`, and its image is new.
* **Opening** (`efOpenMemoryHash_built`, `efOpenExHash_built`): a successful open of a new database
  is the free list built on a blank image, if the sizes do not overflow; the result is blank too.
-/

namespace Endfields.Model

open Endfields.Lib

/-- Bytes outside the cleared region stay. -/
lemma load_memset_of_disjoint {m : Mem} {a n b w : ℕ} {v : UInt8} (h : a + n ≤ b ∨ b + w ≤ a) :
    load (memset m a v n) b w = load m b w :=
  load_congr fun x hx hx' => memset_apply_of_outside (by omega)

/-- A word inside a cleared region is zero. -/
lemma load_memset_zero {m : Mem} {a n b w : ℕ} (h : a ≤ b) (h' : b + w ≤ a + n) :
    load (memset m a 0 n) b w = 0 :=
  load_eq_zero fun x hx hx' => memset_apply_of_inside (by omega) (by omega)

/-- The superblock of a new image, but for its checksum and its free list. -/
structure Superblock.New (maxSlots cap : ℕ) (sb : Superblock) : Prop where
  maxSlots : sb.maxSlots = maxSlots
  schema : sb.schemaVersion = Model.schemaVersion
  hashCap : sb.hashCap = cap
  queueHead : sb.queueHead = 0
  queueTail : sb.queueTail = 0
  queueLock : sb.queueLock = 0
  indexWriteLock : sb.indexWriteLock = 0
  txnLock : sb.txnLock = 0
  txnState : sb.txnState = 0
  slotCrc : sb.slotCrc = true

namespace Db

variable {g : Geometry} {db db' : Db} {i v maxSlots cap : ℕ}

/-- A new checksum is a store to the checksum alone.
Source: `endfields.c`, `ef_sb_checksum_store` -/
lemma efSbChecksumStore_eq (db : Db) : ∃ v, db.efSbChecksumStore = db.setChecksum v := by
  unfold efSbChecksumStore
  split_ifs
  · exact ⟨_, rfl⟩
  · exact ⟨_, rfl⟩

/-- The superblock that is written first. -/
lemma efInitSuperblock_new (db : Db) {maxSlots cap : ℕ} (hmax : maxSlots < u64) (hcap : cap ≤ 0xFFFF) :
    (db.efInitSuperblock maxSlots cap).sb.New maxSlots cap := by
  unfold efInitSuperblock
  simp only
  obtain ⟨v, hv⟩ := efSbChecksumStore_eq
    (((((((((db.store 0 4 sbMagic).store 4 4 64).setMaxSlots maxSlots).setFreeListHead
      0).setSchemaVersion schemaVersion).setFlags 3).setFreeCount maxSlots).zero 36
      28).efSbHashCapacityStore cap)
  rw [hv]
  unfold efSbHashCapacityStore
  rw [if_neg (by omega)]
  have hm := Nat.mod_eq_of_lt hmax
  have hc : cap % 65536 = cap := Nat.mod_eq_of_lt (by omega)
  unfold u64 at hm
  constructor <;>
    simp [sb, Superblock.read, setChecksum, setHashCap, zero, setFreeCount, setFlags,
      setSchemaVersion, setFreeListHead, setMaxSlots, store, load_store_of_disjoint,
      load_memset_of_disjoint, load_memset_zero, Superblock.slotCrc, hm, hc]
  -- the flags of a new image ask for checksums
  rfl

/-- A handle bound to `g` on a new image: no entry, no queue, no transaction. -/
structure Blank (g : Geometry) (db : Db) : Prop where
  valid : efHashCapacityValid g.cap = true
  ok : (db.view g).Ok g
  idle : db.txnActive = false
  mapped : db.isMapped = true
  sb : db.sb.New g.n g.cap
  table : ∀ p, p < g.cap → db.table p = none

/-- A blank layout depends on the geometry, the table and the parts of the superblock. -/
lemma Blank.congr (h : Blank g db) (hcore : db'.core = db.core) (hsb : db'.sb.New g.n g.cap)
    (hix : db'.index = db.index) : Blank g db' where
  valid := h.valid
  ok := h.ok.congr hcore (hsb.maxSlots.trans h.sb.maxSlots.symm) (hsb.schema.trans h.sb.schema.symm)
  idle := (congrArg Core.txnActive hcore).trans h.idle
  mapped := (congrArg Core.isMapped hcore).trans h.mapped
  sb := hsb
  table p hp := by
    have hcap : db.hashCapacity = g.cap := h.ok.cap
    rw [table_of_index hix (by omega)]
    exact h.table p hp

section build

variable (h : Blank g db)

include h

/-- The head of the free list is no part of the layout. -/
lemma Blank.setFreeListHead (v : ℕ) : Blank g (db.setFreeListHead v) := by
  refine h.congr rfl ?_ (index_setFreeListHead v)
  rw [sb_eq g, view_setFreeListHead]
  exact ⟨h.sb.1, h.sb.2, h.sb.3, h.sb.4, h.sb.5, h.sb.6, h.sb.7, h.sb.8, h.sb.9, h.sb.10⟩

/-- The number of free slots is no part of the layout. -/
lemma Blank.setFreeCount (v : ℕ) : Blank g (db.setFreeCount v) := by
  refine h.congr rfl ?_ (index_store_low (by norm_num))
  rw [sb_eq g, view_setFreeCount]
  exact ⟨h.sb.1, h.sb.2, h.sb.3, h.sb.4, h.sb.5, h.sb.6, h.sb.7, h.sb.8, h.sb.9, h.sb.10⟩

/-- The checksum is no part of the layout. -/
lemma Blank.setChecksum (v : ℕ) : Blank g (db.setChecksum v) := by
  refine h.congr rfl ?_ (index_store_low (by norm_num))
  rw [sb_eq g, view_setChecksum]
  exact ⟨h.sb.1, h.sb.2, h.sb.3, h.sb.4, h.sb.5, h.sb.6, h.sb.7, h.sb.8, h.sb.9, h.sb.10⟩

/-- A new checksum leaves the layout blank.
Source: `endfields.c`, `ef_sb_checksum_store` -/
lemma Blank.efSbChecksumStore : Blank g db.efSbChecksumStore := by
  obtain ⟨v, hv⟩ := efSbChecksumStore_eq db
  rw [hv]
  exact h.setChecksum v

/-- One slot on the free list leaves the layout blank.
Source: `endfields.c`, `ef_build_free_list` -/
lemma Blank.buildFreeSlot (hi : i < g.n) : Blank g (db.buildFreeSlot i) := by
  have hcap : db.hashCapacity = g.cap := h.ok.cap
  have hbase := slotsBase_eq_base h.ok.cap
  have hp := g.base_le_ptr i
  unfold Db.buildFreeSlot
  rw [slotPtr_eq h.ok.cap]
  simp only
  generalize (if i + 1 < _ then _ else 0 : ℕ) = next
  obtain ⟨s, hview⟩ : ∃ s, (((db.setStatus (g.ptr i) statusFree).zero (g.ptr i + 8) 48).setNext
      (g.ptr i) next).view g = (db.view g).setSlot i s := by
    rw [view_setNext hi, view_zero_payload hi, view_setStatus hi, View.setSlot_setSlot,
      View.setSlot_setSlot]
    exact ⟨_, rfl⟩
  refine h.congr (congrArg View.core hview) ?_ ?_
  · rw [sb_eq g, hview]
    exact h.sb
  · refine (index_setNext _ ?_).trans ((index_zero_high ?_).trans (index_setStatus _ ?_))
    · exact hbase.trans_le hp
    · exact hbase.trans_le (hp.trans (by omega))
    · exact hbase.trans_le hp

/-- So does the list of the first `n` slots.
Source: `endfields.c`, `ef_build_free_list` -/
lemma Blank.buildFreeListLoop {n : ℕ} (hn : n ≤ g.n) : Blank g (db.buildFreeListLoop n) := by
  induction n with
  | zero => exact h
  | succ n ih => exact (ih (by omega)).buildFreeSlot (by omega)

/-- New slot checksums leave the layout blank.
Source: `endfields.c`, `ef_db_refresh_slot_crcs` -/
lemma Blank.efDbRefreshSlotCrcs : Blank g db.efDbRefreshSlotCrcs := by
  have hview := view_efDbRefreshSlotCrcs h.ok.toBound
  have hkeep : db.efDbRefreshSlotCrcs.core = db.core ∧ db.efDbRefreshSlotCrcs.sb = db.sb := by
    split_ifs at hview with hc
    · exact ⟨congrArg View.core hview, congrArg View.sb hview⟩
    · exact ⟨congrArg View.core hview, congrArg View.sb hview⟩
  refine h.congr hkeep.1 ?_ (index_efDbRefreshSlotCrcs db)
  rw [hkeep.2]
  exact h.sb

/-- Building the free list keeps the image new. -/
lemma Blank.efBuildFreeList : Blank g db.efBuildFreeList := by
  have hmax : db.sb.maxSlots = g.n := h.ok.maxSlots
  have h₁ := h.setFreeListHead 0
  unfold Db.efBuildFreeList efDbRefreshChecksums
  simp only
  by_cases h0 : db.sb.maxSlots = 0
  · rw [if_pos h0]
    exact h₁.setFreeCount 0
  · rw [if_neg h0]
    exact ((((h₁.buildFreeListLoop (by omega)).setFreeListHead _).setFreeCount
      _).efDbRefreshSlotCrcs).efSbChecksumStore

end build

/-! ### Opening -/

/-- A valid capacity fits 16 bits.
Source: `endfields.c`, `ef_hash_capacity_valid` -/
lemma efHashCapacityValid_le (h : efHashCapacityValid cap = true) : cap ≤ 0xFFFF := by
  unfold efHashCapacityValid at h
  split_ifs at h with h0 hle
  · omega
  · omega

/-- A valid capacity passes the test for a power of two.
Source: `endfields.c`, `ef_hash_capacity_valid` -/
lemma efHashCapacityValid_pow (h : efHashCapacityValid cap = true) : cap &&& (cap - 1) = 0 := by
  unfold efHashCapacityValid at h
  split_ifs at h with h0 hle
  · simp [h0]
  · simpa using h

/-- Binding a handle to the layout that the superblock names. -/
lemma efDbBindSlotsLayout_ok (hmax : db.sb.maxSlots = g.n)
    (hs : db.sb.schemaVersion = schemaVersion) (hcap : db.sb.hashCap = g.cap)
    (hsize : db.fileSize = g.size) (hw : db.readonly = false) :
    (db.efDbBindSlotsLayout.view g).Ok g := by
  have hg := g.size_lt
  have hsz := g.size_eq
  have hload : efHashCapacityFromSb db.mem = g.cap := by
    have hs' : (Superblock.read db.mem).schemaVersion = schemaVersion := hs
    unfold efHashCapacityFromSb efSbHashCapacityLoad
    rw [hs', if_neg (by norm_num), if_pos le_rfl]
    exact hcap
  have hundo : (64 + efHashCapacityFromSb db.mem * 16 + db.sb.maxSlots * 64) % u64 = g.undoBase := by
    rw [hload, hmax]
    unfold Geometry.undoBase Geometry.base at hsz ⊢
    rw [Nat.mod_eq_of_lt (by omega)]
    omega
  refine ⟨⟨hload, ?_, hw, hmax⟩, hundo, rfl, hsize, hs⟩
  show g.undoBase ≤ db.fileSize
  omega

/-- A new image on a handle whose size is that of the layout: the free list is built on a blank
image. -/
lemma efDbInitNew_build (db : Db) (g : Geometry) (hvalid : efHashCapacityValid g.cap = true)
    (hmax : ¬ objectMax ≤ 64 * g.n) (hsize : db.fileSize = g.size) (hw : db.readonly = false)
    (hidle : db.txnActive = false) (hmapped : db.isMapped = true) :
    ∃ db₀, Blank g db₀ ∧ db₀.env.contention = db.env.contention ∧
      db.efDbInitNew g.n g.cap = (.ok, db₀.efBuildFreeList) := by
  have hg := g.size_lt
  rw [Geometry.size_eq] at hg
  unfold Geometry.undoBase at hg
  have hnew := efInitSuperblock_new db (show g.n < u64 by omega) (efHashCapacityValid_le hvalid)
  have hcore : (db.efInitSuperblock g.n g.cap).core = db.core := by
    unfold efInitSuperblock
    simp only
    exact (efSbChecksumStore_eq _).elim fun v hv => by rw [hv]; rfl
  unfold efDbInitNew
  rw [if_neg (by simp [hvalid]), if_neg hmax]
  simp only
  generalize db.efInitSuperblock g.n g.cap = db₁ at hnew hcore ⊢
  have hok₁ : (db₁.efDbBindSlotsLayout.view g).Ok g :=
    efDbBindSlotsLayout_ok hnew.maxSlots hnew.schema hnew.hashCap
      ((congrArg Core.fileSize hcore).trans hsize) ((congrArg Core.readonly hcore).trans hw)
  have hsb₁ : db₁.efDbBindSlotsLayout.sb = db₁.sb := rfl
  have hidle₁ : db₁.efDbBindSlotsLayout.txnActive = false :=
    (congrArg Core.txnActive hcore).trans hidle
  have hmapped₁ : db₁.efDbBindSlotsLayout.isMapped = true :=
    (congrArg Core.isMapped hcore).trans hmapped
  have henv₁ : db₁.efDbBindSlotsLayout.env.contention = db.env.contention :=
    congrArg Core.contention hcore
  rw [← hsb₁] at hnew
  generalize db₁.efDbBindSlotsLayout = db₂ at hok₁ hnew hidle₁ hmapped₁ henv₁ ⊢
  have hcap₂ : db₂.hashCapacity = g.cap := hok₁.cap
  -- the table is cleared
  have h₃ : Blank g (db₂.zero 64 (g.cap * 16)) := by
    have hview := view_zero_buckets db₂ g
    refine ⟨hvalid, by rw [hview]; exact hok₁, hidle₁, hmapped₁, ?_, fun p hp => ?_⟩
    · rw [sb_eq g, hview]
      exact hnew
    · exact table_zero db₂ hp
  have henv₃ : (db₂.zero 64 (g.cap * 16)).env.contention = db.env.contention := henv₁
  rw [hcap₂]
  generalize db₂.zero 64 (g.cap * 16) = db₃ at h₃ henv₃ ⊢
  have hmax₃ : db₃.sb.maxSlots = g.n := h₃.sb.maxSlots
  have hbytes : db₃.sb.maxSlots * 64 % u64 = 64 * g.n := by
    rw [hmax₃, Nat.mod_eq_of_lt (by omega)]
    omega
  have hbase₃ := slotsBase_eq_base h₃.ok.cap
  have hge := g.base_ge
  rw [hbytes, hbase₃]
  have hsb : (db₃.zero g.base (64 * g.n)).sb = db₃.sb :=
    Superblock.read_congr fun x hx => memset_apply_of_outside (by omega)
  have h₄ : Blank g (db₃.zero g.base (64 * g.n)) :=
    h₃.congr rfl (by rw [hsb]; exact h₃.sb) (index_zero_high hbase₃.le)
  have henv₄ : (db₃.zero g.base (64 * g.n)).env.contention = db.env.contention := henv₃
  generalize db₃.zero g.base (64 * g.n) = db₄ at h₄ henv₄ ⊢
  exact ⟨db₄, h₄, henv₄, rfl⟩

/-- The layout of these sizes does not overflow. -/
def layoutFits (maxSlots cap : ℕ) : Prop :=
  64 + 16 * cap + 64 * maxSlots + undoLogBytes undoLogDefaultSlots < u64

instance (maxSlots cap : ℕ) : Decidable (layoutFits maxSlots cap) :=
  inferInstanceAs (Decidable (_ < _))

/-- With a valid capacity the layout fits 64 bits when the slots do. -/
lemma layoutFits_of_valid (hvalid : efHashCapacityValid cap = true)
    (hfit : 64 * maxSlots < 2 ^ 63) : layoutFits maxSlots cap := by
  have hle := efHashCapacityValid_le hvalid
  simp only [layoutFits, undoLogBytes, undoLogDefaultSlots, u64]
  omega

/-- The geometry of sizes that do not overflow. -/
lemma exists_open_geometry (hfits : layoutFits maxSlots cap) :
    ∃ g : Geometry, g.n = maxSlots ∧ g.cap = cap ∧
      efExpectedFileSize maxSlots cap undoLogDefaultSlots = g.size := by
  refine ⟨⟨cap, maxSlots, hfits⟩, rfl, rfl, ?_⟩
  have hlt : 64 + cap * 16 + maxSlots * 64 + 32 + undoLogDefaultSlots * 32 < u64 := by
    simp only [layoutFits, undoLogBytes, undoLogDefaultSlots, u64] at *
    omega
  unfold efExpectedFileSize Geometry.size Geometry.undoBase Geometry.base
  rw [Nat.mod_eq_of_lt hlt]
  simp only [undoLogBytes, undoLogDefaultSlots]
  omega

/-- The outcome of a successful open of a new database: the free list of a blank image is built. -/
def Built (maxSlots cap : ℕ) (env : Env) (db : Db) : Prop :=
  ∃ (g : Geometry) (db₀ : Db), g.n = maxSlots ∧ g.cap = cap ∧ Blank g db₀ ∧
    db₀.env.contention = env.contention ∧ db = db₀.efBuildFreeList.setError .ok

/-- The last step of both opens. -/
lemma openNew_built {g : Geometry} (m : Mem) (mapCapacity : ℕ) (backend : Backend) (env : Env)
    (hvalid : efHashCapacityValid g.cap = true)
    (hok : (match (fresh m g.size mapCapacity backend env).efDbInitNew g.n g.cap with
      | (.ok, db) => (.ok, db.setError .ok)
      | (err, db) => (err, db) : Err × Db).1 = .ok) :
    Built g.n g.cap env (match (fresh m g.size mapCapacity backend env).efDbInitNew g.n g.cap with
      | (.ok, db) => (.ok, db.setError .ok)
      | (err, db) => (err, db) : Err × Db).2 := by
  have hmax : ¬ objectMax ≤ 64 * g.n := by
    intro hmax
    unfold efDbInitNew at hok
    rw [if_neg (by simp [hvalid]), if_pos hmax] at hok
    cases hok
  obtain ⟨db₀, hblank, henv, hinit⟩ := efDbInitNew_build (fresh m g.size mapCapacity backend env) g
    hvalid hmax rfl rfl rfl rfl
  rw [hinit]
  exact ⟨g, db₀, rfl, rfl, hblank, henv, rfl⟩

/-- An open in memory that succeeds was given a valid capacity.
Source: `endfields.c`, `ef_open_memory_hash` -/
lemma efOpenMemoryHash_valid {buffer : Mem} {bufferSize : ℕ} {initNew : Bool} {env : Env}
    (hok : (efOpenMemoryHash buffer bufferSize maxSlots cap initNew env).1 = .ok) :
    efHashCapacityValid cap = true := by
  by_contra hvalid
  unfold efOpenMemoryHash at hok
  rw [if_pos (by simpa using hvalid)] at hok
  cases hok

/-- An open of a file that succeeds was given a valid capacity.
Source: `endfields.c`, `ef_open_ex_hash` -/
lemma efOpenExHash_valid {file : Mem} {size : ℕ} {env : Env}
    (hok : (efOpenExHash file size maxSlots cap env).1 = .ok) : efHashCapacityValid cap = true := by
  by_contra hvalid
  unfold efOpenExHash at hok
  rw [if_pos (by simpa using hvalid)] at hok
  cases hok

/-- **A new database in a buffer**. -/
lemma efOpenMemoryHash_built {buffer : Mem} {bufferSize : ℕ} {env : Env}
    (hfits : layoutFits maxSlots cap)
    (hok : (efOpenMemoryHash buffer bufferSize maxSlots cap true env).1 = .ok) :
    Built maxSlots cap env (efOpenMemoryHash buffer bufferSize maxSlots cap true env).2 := by
  have hvalid := efOpenMemoryHash_valid hok
  unfold efOpenMemoryHash at hok ⊢
  obtain ⟨g, rfl, rfl, hsize⟩ := exists_open_geometry hfits
  simp only [hvalid, hsize, Bool.not_true, Bool.false_eq_true, false_and, decide_false, if_false,
    if_true, Bool.true_eq_false] at hok ⊢
  by_cases h1 : bufferSize < g.size
  · rw [if_pos h1] at hok
    cases hok
  rw [if_neg h1] at hok ⊢
  by_cases h2 : env.mallocFails = true
  · rw [if_pos h2] at hok
    cases hok
  rw [if_neg h2] at hok ⊢
  by_cases h3 : g.size = 0
  · rw [if_pos h3] at hok
    cases hok
  rw [if_neg h3] at hok ⊢
  exact openNew_built _ _ _ _ hvalid hok

/-- **A new database in a file**. -/
lemma efOpenExHash_built {file : Mem} {env : Env} (hfits : layoutFits maxSlots cap)
    (hok : (efOpenExHash file 0 maxSlots cap env).1 = .ok) :
    Built maxSlots cap env (efOpenExHash file 0 maxSlots cap env).2 := by
  have hvalid := efOpenExHash_valid hok
  unfold efOpenExHash at hok ⊢
  obtain ⟨g, rfl, rfl, hsize⟩ := exists_open_geometry hfits
  simp only [hvalid, hsize, false_and, decide_true, if_false, if_true, Bool.true_eq_false] at hok ⊢
  by_cases h2 : env.mallocFails = true
  · rw [if_pos h2] at hok
    cases hok
  rw [if_neg h2] at hok ⊢
  exact openNew_built _ _ _ _ hvalid hok

/-! ### The buffer -/

/-- The free list leaves the geometry alone.
Source: `endfields.c`, `ef_build_free_list` -/
lemma frame_efBuildFreeList (db : Db) : Frame db db.efBuildFreeList := by
  have hslot : ∀ (db : Db) i, Frame db (db.buildFreeSlot i) := fun db i => by
    have hp := slotPtr_ge db i
    unfold buildFreeSlot
    simp only
    refine Frame.setNext (Frame.zero (Frame.setStatus (Frame.refl db) hp) ?_) hp
    omega
  have hloop : ∀ (db : Db) n, Frame db (db.buildFreeListLoop n) := fun db n => by
    induction n with
    | zero => exact Frame.refl db
    | succ n ih => exact ih.trans (hslot _ n)
  have h₁ : Frame db (db.setFreeListHead 0) := (Frame.refl db).setFreeListHead
  unfold efBuildFreeList
  simp only
  by_cases h0 : db.sb.maxSlots = 0
  · rw [if_pos h0]
    exact h₁.setFreeCount
  · rw [if_neg h0]
    exact (((h₁.trans (hloop _ _)).setFreeListHead).setFreeCount).trans (frame_efDbRefreshChecksums _)

/-- A new layout keeps the buffer and the backend.
Source: `endfields.c`, `ef_db_init_mapped` -/
lemma mapCapacity_efDbInitNew (db : Db) (n cap : ℕ) :
    (db.efDbInitNew n cap).2.mapCapacity = db.mapCapacity ∧
      (db.efDbInitNew n cap).2.backend = db.backend := by
  have hinit : (db.efInitSuperblock n cap).mapCapacity = db.mapCapacity ∧
      (db.efInitSuperblock n cap).backend = db.backend := by
    unfold efInitSuperblock
    simp only
    exact (efSbChecksumStore_eq _).elim fun v hv => by
      rw [hv]
      exact ⟨rfl, rfl⟩
  unfold efDbInitNew
  by_cases hv : efHashCapacityValid cap = false
  · rw [if_pos hv]
    exact ⟨rfl, rfl⟩
  rw [if_neg hv]
  split_ifs
  · exact ⟨rfl, rfl⟩
  simp only
  generalize db.efInitSuperblock n cap = db₁ at hinit ⊢
  have hframe := frame_efBuildFreeList ((db₁.efDbBindSlotsLayout.zero 64
    (db₁.efDbBindSlotsLayout.hashCapacity * 16)).zero (db₁.efDbBindSlotsLayout.zero 64
      (db₁.efDbBindSlotsLayout.hashCapacity * 16)).slotsBase ((db₁.efDbBindSlotsLayout.zero 64
        (db₁.efDbBindSlotsLayout.hashCapacity * 16)).sb.maxSlots * 64 % u64))
  exact ⟨hframe.mapCapacity.trans hinit.1, hframe.backend.trans hinit.2⟩

/-- A new image that is accepted has its slots within reach. -/
lemma lt_of_efDbInitNew {n : ℕ} {db : Db} (hok : (db.efDbInitNew n cap).1 = .ok) :
    64 * n < objectMax := by
  by_contra hreach
  unfold efDbInitNew at hok
  rw [if_pos (not_lt.mp hreach)] at hok
  split_ifs at hok

/-- A new database in a buffer fits it, uses no more of it than it says, and has its slots within
reach. -/
lemma efOpenMemoryHash_buffer {buffer : Mem} {bufferSize : ℕ} {env : Env}
    (hok : (efOpenMemoryHash buffer bufferSize maxSlots cap true env).1 = .ok) :
    efExpectedFileSize maxSlots cap undoLogDefaultSlots ≤ bufferSize ∧
      (efOpenMemoryHash buffer bufferSize maxSlots cap true env).2.mapCapacity = bufferSize ∧
        (efOpenMemoryHash buffer bufferSize maxSlots cap true env).2.backend = .memory ∧
          64 * maxSlots < objectMax := by
  have hvalid := efOpenMemoryHash_valid hok
  unfold efOpenMemoryHash at hok ⊢
  simp only [hvalid, Bool.not_true, Bool.false_eq_true, false_and, decide_false, if_false, if_true,
    Bool.true_eq_false] at hok ⊢
  generalize efExpectedFileSize maxSlots cap undoLogDefaultSlots = need at hok ⊢
  by_cases h1 : bufferSize < need
  · rw [if_pos h1] at hok
    cases hok
  rw [if_neg h1] at hok ⊢
  by_cases h2 : env.mallocFails = true
  · rw [if_pos h2] at hok
    cases hok
  rw [if_neg h2] at hok ⊢
  by_cases h3 : need = 0
  · rw [if_pos h3] at hok
    cases hok
  rw [if_neg h3] at hok ⊢
  have hnew := mapCapacity_efDbInitNew (fresh (memset buffer 0 0 need) need bufferSize .memory env)
    maxSlots cap
  have hreach := @lt_of_efDbInitNew cap maxSlots
      (fresh (memset buffer 0 0 need) need bufferSize .memory env)
  generalize (fresh (memset buffer 0 0 need) need bufferSize .memory env).efDbInitNew maxSlots cap = r
    at hok hnew hreach ⊢
  obtain ⟨err, db⟩ := r
  cases err with
  | ok => exact ⟨not_lt.mp h1, hnew.1, hnew.2, hreach rfl⟩
  | _ => cases hok

/-- A stored error leaves the layout blank. -/
lemma Blank.setError (h : Blank g db) (err : Err) : Blank g (db.setError err) :=
  ⟨h.valid, h.ok, h.idle, h.mapped, h.sb, h.table⟩

/-- A database that was just built is bound to its layout and has an empty index. -/
lemma Built.blank {env : Env} (h : Built maxSlots cap env db) :
    ∃ g : Geometry, g.n = maxSlots ∧ g.cap = cap ∧ Blank g db := by
  obtain ⟨g, db₀, hn, hcap, hblank, -, rfl⟩ := h
  exact ⟨g, hn, hcap, hblank.efBuildFreeList.setError .ok⟩

end Db

end Endfields.Model
