import Endfields.Queue.Pop
import Endfields.Reopen.Repeat
import Endfields.Spec.Put
import Endfields.Spec.Rebuild

/-!
# The migration of a v3 image

Schema v3 keeps the capacity of the index and the lock of the queue in 32 bits each; v5 keeps them
in two bytes and one, next to each other. Between the two steps of the migration the handle is bound
to the word that they form.

* `Db.imageDb m size`: the image, read in its own layout.
* `Db.SameContent db db'`: the same slots, keys, messages and capacity.
* **`Db.v3_content_iff`**: a writable open of a v3 image with an index shows the content of the
  image exactly if the lock was clear.
-/

namespace Endfields.Model

open Endfields.Lib

namespace Db

/-- A handle on the image as it stands, in the layout of its own schema. -/
def imageDb (m : Mem) (size : ℕ) : Db := fresh m size size .memory Env.quiet

/-- The database `db'` shows the content of `db`: the slots that are not free, the slot of each key,
the pending messages and the capacity of the index. -/
structure SameContent (db db' : Db) : Prop where
  maxSlots : db'.sb.maxSlots = db.sb.maxSlots
  hashCapacity : db'.hashCapacity = db.hashCapacity
  status : ∀ i, i < db.sb.maxSlots → (db'.slot i).status = (db.slot i).status
  live : ∀ i, i < db.sb.maxSlots → (db.slot i).status ≠ statusFree →
    (db'.slot i).payload = (db.slot i).payload ∧ (db'.slot i).nextOffset = (db.slot i).nextOffset
  keys : ∀ k, db'.resolve k = db.resolve k
  pending : db'.pending = db.pending

variable {g : Geometry} {db db' : Db} {m m' : Mem} {size : ℕ}

/-! ### Content -/

/-- Where the slots lie inside the image, an offset leads to a slot just as it is translated to an
id. -/
lemma efSlotAtOffset_of_inFile (h : db.slotsBase + 64 * db.sb.maxSlots ≤ db.fileSize) (off : ℕ) :
    db.efSlotAtOffset off = (db.efOffsetToSlotId off).toOption := by
  unfold efSlotAtOffset efOffsetToSlotId
  split_ifs <;> first | rfl | omega

lemma lt_of_efSlotAtOffset {off i : ℕ} (h : db.efSlotAtOffset off = some i) : i < db.sb.maxSlots := by
  unfold efSlotAtOffset at h
  split_ifs at h
  cases h
  omega

/-- The pending messages depend on the slots that are not free, and on the head of the queue. -/
lemma pending_congr (hcap : db'.hashCapacity = db.hashCapacity)
    (hmax : db'.sb.maxSlots = db.sb.maxSlots)
    (hin : db.slotsBase + 64 * db.sb.maxSlots ≤ db.fileSize)
    (hin' : db'.slotsBase + 64 * db'.sb.maxSlots ≤ db'.fileSize)
    (hhead : db'.sb.queueHead = db.sb.queueHead)
    (hstatus : ∀ i, i < db.sb.maxSlots → (db'.slot i).status = (db.slot i).status)
    (hlive : ∀ i, i < db.sb.maxSlots → (db.slot i).status ≠ statusFree →
      (db'.slot i).payload = (db.slot i).payload ∧ (db'.slot i).nextOffset = (db.slot i).nextOffset) :
    db'.pending = db.pending := by
  have hat : ∀ off, db'.efSlotAtOffset off = db.efSlotAtOffset off := fun off => by
    rw [efSlotAtOffset_of_inFile hin, efSlotAtOffset_of_inFile hin', efOffsetToSlotId_congr hcap hmax]
  have hfilter : ∀ off status, ((db'.efSlotAtOffset off).filter fun i => (db'.slot i).status = status) =
      (db.efSlotAtOffset off).filter fun i => (db.slot i).status = status := by
    intro off status
    rw [hat]
    rcases hoff : db.efSlotAtOffset off with _ | i
    · rfl
    · rw [Option.filter_some, Option.filter_some, hstatus i (lt_of_efSlotAtOffset hoff)]
  have hqueued : db'.queuedAt = db.queuedAt := funext fun off => hfilter off statusQueued
  have hdummy : db'.queueDummy = db.queueDummy := by
    unfold queueDummy
    rw [hhead, hfilter]
  -- a node of the queue is not free, so it keeps its link and its message
  have hnode : ∀ off i, db.queuedAt off = some i →
      i < db.sb.maxSlots ∧ (db.slot i).status ≠ statusFree := by
    intro off i hi
    obtain ⟨hoff, hst⟩ := Option.filter_eq_some_iff.mp hi
    rw [of_decide_eq_true hst]
    exact ⟨lt_of_efSlotAtOffset hoff, by norm_num⟩
  have hnodes : db'.queueNodes = db.queueNodes := by
    unfold queueNodes
    rw [hdummy]
    rcases hd : db.queueDummy with _ | d
    · rfl
    · simp only
      obtain ⟨hdlt, hdst⟩ : d < db.sb.maxSlots ∧ (db.slot d).status ≠ statusFree := by
        unfold queueDummy at hd
        split_ifs at hd
        obtain ⟨hoff, hst⟩ := Option.filter_eq_some_iff.mp hd
        rw [of_decide_eq_true hst]
        exact ⟨lt_of_efSlotAtOffset hoff, by norm_num⟩
      rw [hqueued, (hlive d hdlt hdst).2, hmax]
      refine walk_congr (fun _ => rfl) fun i hi => ?_
      obtain ⟨off, hoff⟩ := exists_of_mem_walk hi
      exact (hlive i (hnode off i hoff).1 (hnode off i hoff).2).2
  unfold Db.pending
  rw [hnodes]
  refine List.map_congr_left fun i hi => ?_
  unfold queueNodes at hi
  rcases hd : db.queueDummy with _ | d
  · rw [hd] at hi
    cases hi
  · rw [hd] at hi
    obtain ⟨off, hoff⟩ := exists_of_mem_walk hi
    obtain ⟨hlt, hst⟩ := hnode off i hoff
    unfold Slot.message Slot.messageLen
    rw [(hlive i hlt hst).1]

/-- Two handles with the same layout and the same bytes show the same content. -/
lemma sameContent_of_bytes (hcap : db'.hashCapacity = db.hashCapacity)
    (hmax : db'.sb.maxSlots = db.sb.maxSlots)
    (hin : db.slotsBase + 64 * db.sb.maxSlots ≤ db.fileSize)
    (hin' : db'.slotsBase + 64 * db'.sb.maxSlots ≤ db'.fileSize)
    (hhead : db'.sb.queueHead = db.sb.queueHead)
    (hbytes : ∀ x, 64 ≤ x → x < db.slotsBase + 64 * db.sb.maxSlots → db'.mem x = db.mem x) :
    SameContent db db' := by
  have hbase : db'.slotsBase = db.slotsBase := by rw [db'.slotsBase_eq, db.slotsBase_eq, hcap]
  have hge := db.slotsBase_ge
  have hbase' := db.slotsBase_eq
  have hslot : ∀ i, i < db.sb.maxSlots → db'.slot i = db.slot i := by
    intro i hi
    unfold slot slotAt slotPtr
    rw [hbase]
    exact Slot.read_congr fun x hx hx' => hbytes x (by omega) (by omega)
  refine ⟨hmax, hcap, fun i hi => by rw [hslot i hi], fun i hi _ => by rw [hslot i hi]; exact
      ⟨rfl, rfl⟩,
    fun k => resolve_of_entries hcap hmax (fun p hp => ?_) k, ?_⟩
  · exact HashEntry.read_congr fun x hx hx' => hbytes x (by omega) (by omega)
  · exact pending_congr hcap hmax hin hin' hhead (fun i hi => by rw [hslot i hi])
      fun i hi _ => by rw [hslot i hi]; exact ⟨rfl, rfl⟩

lemma SameContent.trans {db'' : Db} (h : SameContent db db') (h' : SameContent db' db'') :
    SameContent db db'' where
  maxSlots := h'.maxSlots.trans h.maxSlots
  hashCapacity := h'.hashCapacity.trans h.hashCapacity
  status i hi := (h'.status i (by rw [h.maxSlots]; exact hi)).trans (h.status i hi)
  live i hi hst := by
    have hi' : i < db'.sb.maxSlots := by rw [h.maxSlots]; exact hi
    have hst' : (db'.slot i).status ≠ statusFree := by rw [h.status i hi]; exact hst
    exact ⟨(h'.live i hi' hst').1.trans (h.live i hi hst).1,
      (h'.live i hi' hst').2.trans (h.live i hi hst).2⟩
  keys k := (h'.keys k).trans (h.keys k)
  pending := h'.pending.trans h.pending

/-- **The rebuild** keeps the content. -/
lemma sameContent_rebuilt (h : (db.view g).Bound g) (hs : db.sb.schemaVersion ≠ 0)
    (hidle : db.txnActive = false) {S : ℕ} (hS : db.fileSize ≤ S) :
    SameContent db (({ db.efRebuildFreeList with fileSize := S } : Db).setError .ok) := by
  have hrebuilt := efRebuildFreeList_spec h hs
  have hframe := frame_efRebuildFreeList db
  have hindex := hframe.index fun hact => by
    rw [hidle] at hact
    cases hact
  have hcap : db.hashCapacity = g.cap := h.cap
  have hmax : db.sb.maxSlots = g.n := h.maxSlots
  have hin : db.slotsBase + 64 * db.sb.maxSlots ≤ db.fileSize := by
    have hfile : g.undoBase ≤ db.fileSize := h.inFile
    rw [slotsBase_eq_base h.cap, hmax]
    exact hfile
  generalize db.efRebuildFreeList = db₁ at hrebuilt hframe hindex ⊢
  obtain ⟨c, hsb⟩ := hrebuilt.sb
  have hcap₁ : db₁.hashCapacity = db.hashCapacity := hframe.hashCapacity
  have hmax₁ : db₁.sb.maxSlots = db.sb.maxSlots := by
    rw [sb_eq g db₁, hsb]
    rfl
  have hhead₁ : db₁.sb.queueHead = db.sb.queueHead := by
    rw [sb_eq g db₁, hsb]
    rfl
  have hslot : ∀ i, i < db.sb.maxSlots → db₁.slot i = (db₁.view g).slots i := fun i hi =>
    slot_eq (hcap₁.trans hcap) (by omega)
  have hslot₀ : ∀ i, i < db.sb.maxSlots → db.slot i = (db.view g).slots i := fun i hi =>
    slot_eq hcap (by omega)
  have hstatus : ∀ i, i < db.sb.maxSlots → (db₁.slot i).status = (db.slot i).status := by
    intro i hi
    rw [hslot i hi, hslot₀ i hi]
    exact hrebuilt.status (by omega)
  have hlive : ∀ i, i < db.sb.maxSlots → (db.slot i).status ≠ statusFree →
      (db₁.slot i).payload = (db.slot i).payload ∧
        (db₁.slot i).nextOffset = (db.slot i).nextOffset := by
    intro i hi hst
    rw [hslot₀ i hi] at hst ⊢
    rw [hslot i hi]
    exact hrebuilt.kept (by omega) hst
  have hbase : db₁.slotsBase = db.slotsBase := by rw [db₁.slotsBase_eq, db.slotsBase_eq, hcap₁]
  refine ⟨hmax₁, hcap₁, hstatus, hlive, fun k => ?_, pending_congr hcap₁ hmax₁ hin
      (show db₁.slotsBase + 64 * db₁.sb.maxSlots ≤ S by
        rw [hbase, hmax₁]
        omega) hhead₁ hstatus hlive⟩
  refine resolve_of_entries ?_ ?_ ?_ k
  · exact hcap₁
  · exact hmax₁
  · exact fun p hp => entry_of_index hindex hp

/-! ### The open -/

/-- The last stage of an open, if it succeeds. -/
lemma finishOpen_ok (hfin : db.finishOpen = (.ok, db')) :
    ∃ S, db.fileSize ≤ S ∧ db' = { db.efRebuildFreeList with fileSize := S } := by
  have hsize : db.efRebuildFreeList.fileSize = db.fileSize := (frame_efRebuildFreeList db).fileSize
  have hcases := finishOpen_cases (not_rebuildFaults hfin)
  rw [hfin] at hcases
  generalize db.efRebuildFreeList = rebuilt at hsize hcases ⊢
  rcases hcases with ⟨-, heq⟩ | ⟨-, -, herr⟩ | ⟨hlt, -, heq⟩
  · exact ⟨rebuilt.fileSize, hsize.ge, (Prod.mk.inj heq).2⟩
  · cases herr
  · exact ⟨rebuilt.need, by omega, (Prod.mk.inj heq).2⟩

/-- The open of a v3 image with an index: the handle is bound to the word that the capacity and the
lock form, and shows the content of the image when the lock is clear. -/
lemma content_of_v3 (hs : db.sb.schemaVersion = schemaVersionV3)
    (hpos : 0 < efHashCapacityFromSb db.mem)
    (hbind : db.efDbBindSlotsLayout = db) (hw : db.readonly = false) (hact : db.txnActive = false)
    (hroom : HasRoom db.mem) (hin : db.slotsBase + 64 * db.sb.maxSlots ≤ db.fileSize)
    (hn : 64 * db.sb.maxSlots < 2 ^ 63) (hok : db.efDbInitExisting = (.ok, db')) :
    (db'.setError .ok).hashCapacity =
        efHashCapacityFromSb db.mem + (if load db.mem 60 4 ≠ 0 then 65536 else 0) ∧
      (load db.mem 60 4 = 0 → SameContent db (db'.setError .ok)) := by
  obtain ⟨hvalid, db₁, db₂, hmig, hrec, hfin⟩ := efDbInitExisting_stages hw hok
  have hcap : efHashCapacityFromSb db.mem ≤ 0xFFFF := efHashCapacityValid_le hvalid.cap
  have hhash₀ : db.hashCapacity = efHashCapacityFromSb db.mem := by
    rw [← hbind]
    rfl
  obtain ⟨db₀, hmig₀, hspec⟩ := migrate_of_migrates (.inr ⟨hs, hpos⟩) hbind hcap hroom
  rw [hbind, hmig₀] at hmig
  have heq := (Prod.mk.inj hmig).2
  subst heq
  -- the migration leaves no transaction to recover
  obtain ⟨hopening, -, hstate⟩ := hspec.opening hw hact hroom
  rw [efTxnRecoverFromStaleLock_of_ne hopening (by rw [hstate]; norm_num)] at hrec
  have heq := (Prod.mk.inj hrec).2
  subst heq
  obtain ⟨S, hS, heq⟩ := finishOpen_ok hfin
  have hhash : db₀.hashCapacity =
      efHashCapacityFromSb db.mem + (if load db.mem 60 4 ≠ 0 then 65536 else 0) := by
    have hlock : db₀.sb.queueLock = if load db.mem 60 4 ≠ 0 then 1 else 0 := by
      rw [hspec.queueLock]
      refine if_congr ?_ rfl rfl
      exact and_iff_right hs
    rw [hspec.hashCapacity, hspec.hashCap, hlock]
    split_ifs <;> rfl
  have hfinal : (db'.setError .ok).hashCapacity = db₀.hashCapacity := by
    have hframe := (frame_efRebuildFreeList db₀).hashCapacity
    rw [heq]
    generalize db₀.efRebuildFreeList = rebuilt at hframe ⊢
    exact hframe
  refine ⟨hfinal.trans hhash, fun hlock => ?_⟩
  rw [if_neg (not_not.mpr hlock), Nat.add_zero] at hhash
  have hbase₀ := db₀.slotsBase_eq
  have hbase := db.slotsBase_eq
  have hsize : db₀.fileSize = db.fileSize := hspec.fileSize
  have hmax : db₀.sb.maxSlots = db.sb.maxSlots :=
    load_congr fun x hx hx' => hspec.low x (by omega) (by omega)
  have hhead : db₀.sb.queueHead = db.sb.queueHead :=
    load_congr fun x hx hx' => hspec.low x (by omega) (by omega)
  have hbytes : ∀ x, 64 ≤ x → x < db.slotsBase + 64 * db.sb.maxSlots → db₀.mem x = db.mem x :=
    fun x hx hx' => hspec.high x hx (by omega)
  have hin₀ : db₀.slotsBase + 64 * db₀.sb.maxSlots ≤ db₀.fileSize := by omega
  have hsame : SameContent db db₀ :=
    sameContent_of_bytes (hhash.trans hhash₀.symm) hmax hin hin₀ hhead hbytes
  obtain ⟨g, hb⟩ : ∃ g, (db₀.view g).Bound g := by
    refine ⟨⟨db₀.hashCapacity, db₀.sb.maxSlots, ?_⟩, rfl, ?_, hopening.writable, rfl⟩
    · simp only [undoLogBytes, undoLogDefaultSlots, u64]
      omega
    · show Geometry.undoBase _ ≤ db₀.fileSize
      simp only [Geometry.undoBase, Geometry.base]
      omega
  rw [heq]
  exact hsame.trans
    (sameContent_rebuilt hb (by rw [hopening.schema]; norm_num) hopening.inactive hS)

/-- A fresh handle on the bytes of the image, and what a successful open makes of it. -/
lemma sameContent_iff_of_fresh {F C : ℕ} {b : Backend} {env : Env} (hstored : Stored m size)
    (hs : (Superblock.read m).schemaVersion = schemaVersionV3) (hpos : 0 < efHashCapacityFromSb m)
    (hsame : ∀ x, x < size → m' x = m x)
    (hF : 64 + efHashCapacityFromSb m * 16 + (Superblock.read m).maxSlots * 64 ≤ F)
    (hok : (fresh m' F C b env).efDbInitExisting.1 = .ok) :
    SameContent (imageDb m size) ((fresh m' F C b env).efDbInitExisting.2.setError .ok) ↔
      load m 60 4 = 0 := by
  have hfits := hstored.fits
  have hlt := hstored.size_lt
  have hroom := hstored.room
  have hsb : Superblock.read m' = Superblock.read m := Superblock.read_congr fun x hx => hsame x
      (by omega)
  have hcap : efHashCapacityFromSb m' = efHashCapacityFromSb m :=
    efHashCapacityFromSb_congr fun x hx => hsame x (by omega)
  have hword : load m' 60 4 = load m 60 4 := load_congr fun x hx hx' => hsame x (by omega)
  have hbase : (imageDb m size).slotsBase = 64 + efHashCapacityFromSb m * 16 :=
    (imageDb m size).slotsBase_eq
  have hbase' : (fresh m' F C b env).slotsBase = 64 + efHashCapacityFromSb m' * 16 :=
    (fresh m' F C b env).slotsBase_eq
  have hsb' : (fresh m' F C b env).sb = Superblock.read m := hsb
  have hsb₀ : (imageDb m size).sb = Superblock.read m := rfl
  have hmem : (fresh m' F C b env).mem = m' := rfl
  have hfile : (fresh m' F C b env).fileSize = F := rfl
  have hfresh : SameContent (imageDb m size) (fresh m' F C b env) := by
    refine sameContent_of_bytes hcap ?_ ?_ ?_ ?_ fun x _ hx' => ?_
    · rw [hsb', hsb₀]
    · rw [hbase, hsb₀]
      show _ ≤ size
      omega
    · rw [hbase', hsb', hcap, hfile]
      omega
    · rw [hsb', hsb₀]
    · rw [hbase, hsb₀] at hx'
      exact hsame x (by omega)
  have hinit : (fresh m' F C b env).efDbInitExisting =
      (.ok, (fresh m' F C b env).efDbInitExisting.2) := Prod.ext hok rfl
  have hcontent := @content_of_v3 (fresh m' F C b env) (fresh m' F C b env).efDbInitExisting.2
    (by rw [hsb', hs]) (by rw [hmem, hcap]; exact hpos) (fresh_bound m' F C b env) rfl rfl
    (by unfold HasRoom; rw [hmem, hcap, hsb]; exact hroom) (by rw [hbase', hsb', hcap, hfile]; omega)
    (by rw [hsb']; omega) hinit
  rw [hmem, hcap, hword] at hcontent
  obtain ⟨hhash, hkept⟩ := hcontent
  have hhash₀ : (imageDb m size).hashCapacity = efHashCapacityFromSb m := rfl
  generalize (fresh m' F C b env).efDbInitExisting.2.setError .ok = db' at hhash hkept ⊢
  constructor
  · intro hsame'
    by_contra hlock
    rw [if_pos hlock] at hhash
    have heq := hsame'.hashCapacity
    omega
  · exact fun hlock => hfresh.trans (hkept hlock)

/-- **The open of a v3 image** with an index shows the content of the image exactly if its 32-bit
lock field is zero. -/
theorem v3_content_iff (hstored : Stored m size)
    (hs : (Superblock.read m).schemaVersion = schemaVersionV3) (hpos : 0 < efHashCapacityFromSb m)
    (hopen : WritableOpen m size db') : SameContent (imageDb m size) db' ↔ load m 60 4 = 0 := by
  have hfits := hstored.fits
  cases hopen with
  | memory maxSlots cap env hok =>
      obtain ⟨-, hinit, heq⟩ := efOpenMemoryHash_stages hok
      have hprobe : probeSize m = efExpectedFileSize (Superblock.read m).maxSlots
          (efHashCapacityFromSb m) 0 := by
        unfold probeSize
        rw [hs, if_neg (by norm_num)]
      have hsize := hprobe.trans hstored.sizes.2
      rw [heq]
      exact sameContent_iff_of_fresh hstored hs hpos (fun _ _ => rfl) (by omega) hinit
  | file initialSlots cap env hok =>
      obtain ⟨m', size', hgrown, hinit, heq⟩ := efOpenExHash_stages hstored.size_ne hok
      have hsize := hgrown.size_eq
      have hle : size ≤ size' := by
        rw [hsize]
        split_ifs
        · exact le_max_left _ _
        · exact le_rfl
      rw [heq]
      exact sameContent_iff_of_fresh hstored hs hpos hgrown.same (by omega) hinit

/-- A v3 image of one used slot with an index of four buckets, which holds the key `k` of the slot,
and with the given lock word. -/
def v3Image (lock : ℕ) : Mem :=
  let db := (newMemory 1 4).efAllocSlot.2.2
  let db := (db.efIndexPut [107] 0).2
  ((db.setSchemaVersion schemaVersionV3).store 60 4 lock).efSbChecksumStore.mem

lemma stored_v3Image : Stored (v3Image 0) 2097152 ∧ Stored (v3Image 1) 2097152 := by
  refine ⟨⟨?_, ?_⟩, ⟨?_, ?_⟩⟩ <;> decide +kernel

/-- With a clear lock the content is there. -/
theorem v3_content_iff_of_clear :
    SameContent (imageDb (v3Image 0) 2097152)
      (efOpenMemoryHash (v3Image 0) 2097152 1 4 false Env.quiet).2 ↔ load (v3Image 0) 60 4 = 0 :=
  v3_content_iff stored_v3Image.1 (by decide +kernel) (by decide +kernel)
    (.memory 1 4 Env.quiet (by decide +kernel))

/-- With a lock that is held the open succeeds, with a capacity of 65540 buckets; the slot and its
key are gone. -/
theorem v3_open_loses_content :
    Stored (v3Image 1) 2097152 ∧ (Superblock.read (v3Image 1)).schemaVersion = schemaVersionV3 ∧
      efSbChecksumValid (v3Image 1) = true ∧ efHashCapacityFromSb (v3Image 1) = 4 ∧
      (efOpenMemoryHash (v3Image 1) 2097152 1 4 false Env.quiet).1 = .ok ∧
      (efOpenMemoryHash (v3Image 1) 2097152 1 4 false Env.quiet).2.hashCapacity = 65540 ∧
      ((imageDb (v3Image 1) 2097152).slot 0).status = statusUsed ∧
      ((efOpenMemoryHash (v3Image 1) 2097152 1 4 false Env.quiet).2.slot 0).status = statusFree ∧
      (imageDb (v3Image 1) 2097152).resolve (efKeyHash [107]) = .ok 0 ∧
      (efOpenMemoryHash (v3Image 1) 2097152 1 4 false Env.quiet).2.resolve (efKeyHash [107]) ≠ .ok 0 :=
  ⟨stored_v3Image.2, by decide +kernel, by decide +kernel, by decide +kernel, by decide +kernel,
    by decide +kernel, by decide +kernel, by decide +kernel, by decide +kernel, by decide +kernel⟩

end Db

end Endfields.Model
