import Endfields.Resize.Free
import Endfields.Spec.Rehash

/-!
# What a rehash keeps

`ef_index_rehash` and `ef_index_shrink` move all slots and build the table anew. Read by slot id the
database is the same afterwards.

* `Db.RehashKeeps`: the same slots, free list, queue and keys, each read by slot id.
* **`efIndexRehash_keeps`**: a successful rehash keeps the database, and a successful shrink keeps
  it if and only if the new table has a bucket for every entry.
* `efIndexShrink_loses_key`: on a handle that was opened again the entry count is zero, and a shrink
  to four buckets with five entries succeeds.
-/

namespace Endfields.Model

open Endfields.Lib

/-- The offset is zero, or the address of a slot of the geometry. -/
def Geometry.IsOffset (g : Geometry) (off : ℕ) : Prop := off = 0 ∨ ∃ i, i < g.n ∧ off = g.ptr i

namespace Db

/-- The offset is zero, or that of a slot. -/
def SlotOffset (db : Db) (off : ℕ) : Prop :=
  off = 0 ∨ ∃ i, i < db.sb.maxSlots ∧ off = db.efSlotToOffset i

/-- Every entry of the table is empty, or leads to a slot. -/
def EntriesOk (db : Db) : Prop :=
  ∀ b, b < db.hashCapacity → db.SlotOffset (db.entry b).slotOffset

/-- Every offset in the image is zero, or that of a slot. -/
structure OffsetsOk (db : Db) : Prop where
  next : ∀ i, i < db.sb.maxSlots → db.SlotOffset (db.slot i).nextOffset
  free : db.SlotOffset db.sb.freeListHead
  queueHead : db.SlotOffset db.sb.queueHead
  queueTail : db.SlotOffset db.sb.queueTail
  entries : ∀ b, b < db.hashCapacity → db.SlotOffset (db.entry b).slotOffset

instance (db : Db) (off : ℕ) : Decidable (db.SlotOffset off) := inferInstanceAs (Decidable (_ ∨ _))

instance (db : Db) : Decidable db.EntriesOk :=
  inferInstanceAs (Decidable (∀ b, b < db.hashCapacity → _))

instance (db : Db) : Decidable db.OffsetsOk :=
  decidable_of_iff
    ((∀ i, i < db.sb.maxSlots → db.SlotOffset (db.slot i).nextOffset) ∧
      db.SlotOffset db.sb.freeListHead ∧ db.SlotOffset db.sb.queueHead ∧
      db.SlotOffset db.sb.queueTail ∧
      ∀ b, b < db.hashCapacity → db.SlotOffset (db.entry b).slotOffset)
    ⟨fun ⟨h₁, h₂, h₃, h₄, h₅⟩ => ⟨h₁, h₂, h₃, h₄, h₅⟩,
      fun h => ⟨h.next, h.free, h.queueHead, h.queueTail, h.entries⟩⟩

/-- The queued slot at an offset.
Source: `ef_queue.c`, `ef_queue_dequeue_mpmc` -/
def queueNode (db : Db) (off : ℕ) : Option ℕ :=
  (db.efSlotAtOffset off).filter fun i => (db.slot i).status = statusQueued

/-- The link of the queue's dummy slot.
Source: `ef_queue.c`, `ef_queue_dequeue_mpmc` -/
def queueFirst (db : Db) : ℕ :=
  match (db.efSlotAtOffset db.sb.queueHead).filter
      fun i => (db.slot i).status = statusQueueDummy with
  | none => 0
  | some i => (db.slot i).nextOffset

/-- The queued slots from the head on, as far as `k` links lead. -/
def queueChain (db : Db) (k : ℕ) : List ℕ :=
  walk db.queueNode (fun i => (db.slot i).nextOffset) k db.queueFirst

/-- The message of a payload: a length byte, and the bytes after it.
Source: `ef_queue.c`, `ef_queue_push` -/
def message (payload : List UInt8) : List UInt8 := (payload.drop 1).take (payload.headD 0).toNat

/-- The first `k` messages of the queue. -/
def queueMessages (db : Db) (k : ℕ) : List (List UInt8) :=
  (db.queueChain k).map fun i => message (db.slot i).payload

/-- Every slot with a checksum has the right one. -/
def CrcExact (db : Db) : Prop :=
  db.sb.slotCrc = true → ∀ i, i < db.sb.maxSlots → efSlotStatusHasCrc (db.slot i).status = true →
    (db.slot i).headerCrc = efSlotHeaderCrcCompute i (db.slot i)

/-- The database `db'` is `db`, read by slot id. -/
structure RehashKeeps (db db' : Db) : Prop where
  maxSlots : db'.sb.maxSlots = db.sb.maxSlots
  slots : ∀ i, i < db.sb.maxSlots →
    (db'.slot i).status = (db.slot i).status ∧ (db'.slot i).payload = (db.slot i).payload ∧
      (db'.efOffsetToSlotId (db'.slot i).nextOffset).toOption =
        (db.efOffsetToSlotId (db.slot i).nextOffset).toOption
  free : ∀ k, db'.freeChain k db'.sb.freeListHead = db.freeChain k db.sb.freeListHead
  freeCount : db'.sb.freeCount = db.sb.freeCount
  queue : ∀ k, db'.queueMessages k = db.queueMessages k
  queueHead : db'.efSlotAtOffset db'.sb.queueHead = db.efSlotAtOffset db.sb.queueHead
  queueTail : db'.efSlotAtOffset db'.sb.queueTail = db.efSlotAtOffset db.sb.queueTail
  keys : ∀ k, db'.resolve k = db.resolve k
  crc : db.CrcExact → db'.CrcExact

variable {g g' : Geometry} {db db' : Db} {off : ℕ}

/-- `0` and the slots' offsets are the offsets of the geometry. -/
lemma SlotOffset.isOffset (h : (db.view g).Bound g) (ho : db.SlotOffset off) :
    g.IsOffset off := by
  have hmax : db.sb.maxSlots = g.n := h.maxSlots
  rcases ho with h0 | ⟨i, hi, rfl⟩
  · exact .inl h0
  · exact .inr ⟨i, by omega, efSlotToOffset_of_lt h (by omega)⟩

/-- A shifted offset leads to the same slot. -/
lemma idOf_fixNext (hn : g'.n = g.n) (ho : g.IsOffset off) :
    g'.idOf (fixNext g.base g'.base off) = g.idOf off := by
  rcases ho with rfl | ⟨i, hi, rfl⟩
  · rw [fixNext_zero, Geometry.idOf_zero, Geometry.idOf_zero]
  · rw [fixNext_ptr hn hi, g.idOf_ptr hi, g'.idOf_ptr (by omega)]

/-- Two images with the same slots under two readings of offsets: `f` takes an offset of the first
to the offset of the same slot in the second. -/
structure SameById (f : ℕ → ℕ) (g g' : Geometry) (db db' : Db) : Prop where
  zero : f 0 = 0
  offset : ∀ off, g.IsOffset off → g'.idOf (f off) = g.idOf off
  status : ∀ i, ((db'.view g').slots i).status = ((db.view g).slots i).status
  payload : ∀ i, ((db'.view g').slots i).payload = ((db.view g).slots i).payload
  next : ∀ i, i < g.n → ((db'.view g').slots i).nextOffset = f ((db.view g).slots i).nextOffset
  freeHead : db'.sb.freeListHead = f db.sb.freeListHead
  queueHead : db'.sb.queueHead = f db.sb.queueHead
  queueTail : db'.sb.queueTail = f db.sb.queueTail
  freeCount : db'.sb.freeCount = db.sb.freeCount

/-- A queued slot at an offset, read off the view. -/
lemma queueNode_eq (h : (db.view g).Bound g) (off : ℕ) :
    db.queueNode off =
      (g.idOf off).filter fun i => ((db.view g).slots i).status = statusQueued := by
  unfold queueNode
  rw [efSlotAtOffset_eq h]
  rcases ho : g.idOf off with _ | i
  · rfl
  · simp only [Option.filter_some, slot_eq h.cap ((g.idOf_eq_some_iff _ _).mp ho).1]

/-- The dummy slot of the queue. -/
lemma queueDummy_eq (h : (db.view g).Bound g) (off : ℕ) :
    ((db.efSlotAtOffset off).filter fun i => (db.slot i).status = statusQueueDummy) =
      (g.idOf off).filter fun i => ((db.view g).slots i).status = statusQueueDummy := by
  rw [efSlotAtOffset_eq h]
  rcases ho : g.idOf off with _ | i
  · rfl
  · simp only [Option.filter_some, slot_eq h.cap ((g.idOf_eq_some_iff _ _).mp ho).1]

/-- The slot at an offset is one of the layout. -/
lemma lt_of_filter_idOf {p : ℕ → Bool} {i : ℕ} (h : (g.idOf off).filter p = some i) : i < g.n :=
  ((g.idOf_eq_some_iff _ _).mp (Option.filter_eq_some_iff.mp h).1).1

section sameById

variable {f : ℕ → ℕ} (h : (db.view g).Bound g) (h' : (db'.view g').Bound g') (hn : g'.n = g.n)
  (hoff : db.OffsetsOk) (hs : SameById f g g' db db')

include h hoff in
/-- A slot's link is an offset of the geometry. -/
lemma isOffset_next {i : ℕ} (hi : i < g.n) : g.IsOffset ((db.view g).slots i).nextOffset := by
  have hmax : db.sb.maxSlots = g.n := h.maxSlots
  refine SlotOffset.isOffset h ?_
  rw [← slot_eq h.cap hi]
  exact hoff.next i (by omega)

include h h' hn hoff hs

/-- The fields of a slot, by its number.
Source: `ef_index.c`, `ef_index_rehash_to` -/
lemma SameById.slot {i : ℕ} (hi : i < g.n) :
    (db'.slot i).status = (db.slot i).status ∧ (db'.slot i).payload = (db.slot i).payload ∧
      (db'.slot i).nextOffset = f (db.slot i).nextOffset ∧ g.IsOffset (db.slot i).nextOffset := by
  rw [slot_eq h.cap hi, slot_eq h'.cap (by omega)]
  exact ⟨hs.status i, hs.payload i, hs.next i hi, isOffset_next h hoff hi⟩

/-- The same slots are on the free list.
Source: `ef_index.c`, `ef_index_rehash_to` -/
lemma SameById.freeChain (k : ℕ) :
    db'.freeChain k db'.sb.freeListHead = db.freeChain k db.sb.freeListHead := by
  unfold Db.freeChain
  rw [hs.freeHead]
  refine walk_rename f g.IsOffset (fun o ho => ?_) (fun o i hi => ?_) (hoff.free.isOffset h)
  · rw [efSlotAtOffset_eq h, efSlotAtOffset_eq h', hs.offset o ho]
  · rw [efSlotAtOffset_eq h, g.idOf_eq_some_iff] at hi
    exact (hs.slot h h' hn hoff hi.1).2.2

/-- The first node of the queue is the same slot.
Source: `ef_index.c`, `ef_index_rehash_to` -/
lemma SameById.queueFirst : db'.queueFirst = f db.queueFirst ∧ g.IsOffset db.queueFirst := by
  unfold Db.queueFirst
  have hfilter : ((db'.efSlotAtOffset db'.sb.queueHead).filter
      fun i => (db'.slot i).status = statusQueueDummy) =
      (db.efSlotAtOffset db.sb.queueHead).filter fun i => (db.slot i).status = statusQueueDummy := by
    rw [queueDummy_eq h, queueDummy_eq h', hs.queueHead, hs.offset _ (hoff.queueHead.isOffset h)]
    simp only [hs.status]
  rw [hfilter]
  rcases hd : (db.efSlotAtOffset db.sb.queueHead).filter
    fun i => (db.slot i).status = statusQueueDummy with _ | i
  · exact ⟨hs.zero.symm, .inl rfl⟩
  · rw [queueDummy_eq h] at hd
    exact (hs.slot h h' hn hoff (lt_of_filter_idOf hd)).2.2

/-- The same slots are in the queue.
Source: `ef_index.c`, `ef_index_rehash_to` -/
lemma SameById.queueChain (k : ℕ) : db'.queueChain k = db.queueChain k := by
  obtain ⟨hfirst, ho⟩ := hs.queueFirst h h' hn hoff
  unfold Db.queueChain
  rw [hfirst]
  refine walk_rename f g.IsOffset (fun o ho => ?_) (fun o i hi => ?_) ho
  · rw [queueNode_eq h, queueNode_eq h', hs.offset o ho]
    simp only [hs.status]
  · rw [queueNode_eq h] at hi
    exact (hs.slot h h' hn hoff (lt_of_filter_idOf hi)).2.2

/-- The same messages are in the queue.
Source: `ef_index.c`, `ef_index_rehash_to` -/
lemma SameById.queueMessages (k : ℕ) : db'.queueMessages k = db.queueMessages k := by
  unfold Db.queueMessages
  rw [hs.queueChain h h' hn hoff]
  refine List.map_congr_left fun i hi => ?_
  obtain ⟨o, ho⟩ := exists_of_mem_walk hi
  rw [queueNode_eq h] at ho
  rw [(hs.slot h h' hn hoff (lt_of_filter_idOf ho)).2.1]

/-- Two images with the same slots, with the same keys and with right checksums in both. -/
lemma SameById.keeps (hkeys : ∀ k, db'.resolve k = db.resolve k)
    (hcrc : db.CrcExact → db'.CrcExact) : db.RehashKeeps db' := by
  have hmax : db.sb.maxSlots = g.n := h.maxSlots
  have hmax' : db'.sb.maxSlots = g'.n := h'.maxSlots
  refine ⟨by omega, fun i hi => ?_, hs.freeChain h h' hn hoff, hs.freeCount,
    hs.queueMessages h h' hn hoff, ?_, ?_, hkeys, hcrc⟩
  · obtain ⟨hstatus, hpayload, hnext, ho⟩ := hs.slot h h' hn hoff (i := i) (by omega)
    refine ⟨hstatus, hpayload, ?_⟩
    rw [efOffsetToSlotId_toOption h, efOffsetToSlotId_toOption h', hnext, hs.offset _ ho]
  · rw [efSlotAtOffset_eq h, efSlotAtOffset_eq h', hs.queueHead,
      hs.offset _ (hoff.queueHead.isOffset h)]
  · rw [efSlotAtOffset_eq h, efSlotAtOffset_eq h', hs.queueTail,
      hs.offset _ (hoff.queueTail.isOffset h)]

end sameById

/-- A handle on which nothing moved. -/
lemma sameById_of_still (hst : View.Still (db.view g) (db'.view g)) : SameById id g g db db' := by
  have hsb : db'.sb = db.sb := hst.sb
  refine ⟨rfl, fun _ _ => rfl, fun i => ?_, fun i => ?_, fun i _ => ?_, ?_, ?_, ?_, ?_⟩
  · rw [hst.slots]
  · rw [hst.slots]
  · rw [hst.slots]
    rfl
  · rw [hsb]
    rfl
  · rw [hsb]
    rfl
  · rw [hsb]
    rfl
  · rw [hsb]

/-- A handle whose slots were moved. -/
lemma sameById_of_rehashed {err : Err} (hn : g'.n = g.n) (hr : Rehashed g g' db err db') :
    SameById (fixNext g.base g'.base) g g' db db' := by
  refine ⟨fixNext_zero g g', fun off ho => idOf_fixNext hn ho, hr.status, hr.payload, hr.next, ?_,
    ?_, ?_, ?_⟩
  · rw [hr.sb]
    rfl
  · rw [hr.sb]
    rfl
  · rw [hr.sb]
    rfl
  · rw [hr.sb]
    rfl

/-- Every entry of the table leads to a slot. -/
lemma EntriesOk.maps (h : (db.view g).Bound g) (hent : db.EntriesOk) (hpos : 0 < db.hashCapacity)
    (k off : ℕ) (hm : db.Maps k off) : ∃ i, i < g.n ∧ off = g.ptr i := by
  obtain ⟨p, hp⟩ := hm
  obtain ⟨hne, -, ho⟩ := table_eq_some_iff.mp hp
  have hso := hent _ (Nat.mod_lt p hpos)
  rw [ho] at hso
  exact (hso.isOffset h).resolve_left hne

/-- Where the slots stay, so do the exact checksums. -/
lemma crcExact_of_still (hst : View.Still (db.view g) (db'.view g)) (h : (db.view g).Bound g)
    (hcrc : db.CrcExact) : db'.CrcExact := by
  have h' := hst.bound h
  have hmax : db.sb.maxSlots = g.n := h.maxSlots
  have hsb : db'.sb = db.sb := hst.sb
  intro hon i hi hc
  rw [hsb] at hon hi
  have hi' : i < g.n := by omega
  rw [slot_eq h'.cap hi', hst.slots, ← slot_eq h.cap hi'] at hc ⊢
  exact hcrc hon i hi hc

/-- A rehash writes every checksum anew.
Source: `ef_index.c`, `ef_index_rehash_to` -/
lemma crcExact_of_rehashed (h : (db.view g).Bound g) (hn : g'.n = g.n)
    (hr : Rehashed g g' db .ok db') : db'.CrcExact := by
  have h' := hr.bound h hn
  have hmax' : db'.sb.maxSlots = g'.n := h'.maxSlots
  have hon' : db'.sb.slotCrc = db.sb.slotCrc := by
    rw [hr.sb]
    rfl
  intro hon i hi hc
  rw [hon'] at hon
  have hi' : i < g'.n := by omega
  rw [slot_eq h'.cap hi'] at hc ⊢
  exact hr.crc rfl hon i (by omega) hc

/-- The keys of a rehash that succeeded, with room for them. -/
lemma resolve_of_rehashed (h : (db.view g).Bound g) (hn : g'.n = g.n) (hent : db.EntriesOk)
    (hpos : 0 < db.hashCapacity) (ht : db.TableReadable) (hr : Rehashed g g' db .ok db')
    (hroom : (db.liveEntries db.hashCapacity).length ≤ g'.cap) (k : ℕ) :
    db'.resolve k = db.resolve k := by
  refine resolve_congr_ids hn h (hr.bound h hn) hpos hr.indexed.pos ht hr.indexed.readable
    (hr.sub k) fun off hm => ?_
  obtain ⟨i, hi, rfl⟩ := hent.maps h hpos k off hm
  exact ⟨i, hi, rfl, hr.all rfl ht hroom k i hi hm⟩

/-- A table with all the keys of the old one has a bucket for each of them. -/
lemma room_of_resolve (h : (db.view g).Bound g) (hn : g'.n = g.n) (hent : db.EntriesOk)
    (hpos : 0 < db.hashCapacity) (ht : db.TableReadable) (hr : Rehashed g g' db .ok db')
    (hkeys : ∀ k, db'.resolve k = db.resolve k) :
    (db.liveEntries db.hashCapacity).length ≤ g'.cap := by
  have hcap' : db'.hashCapacity = g'.cap := congrArg Core.hashCapacity hr.core
  rw [← hcap', ← List.length_map HashEntry.keyHash]
  refine (RobinHood.length_le_occupied (t := db'.table) hr.indexed.pos (nodup_liveEntries ht)
    ?_).trans (RobinHood.occupied_le _ _)
  intro k hk
  obtain ⟨e, he, rfl⟩ := List.mem_map.mp hk
  have hm := (mem_liveEntries hpos e).mp he
  obtain ⟨i, hi, hoffi⟩ := hent.maps h hpos _ _ hm
  rw [hoffi] at hm
  have hres := (hkeys e.keyHash).trans (resolve_eq_ok h hpos ht hi hm)
  exact ⟨_, (maps_of_resolve (hr.bound h hn) hr.indexed.pos hr.indexed.readable hres).2⟩

/-- A resize that succeeded, in either direction. -/
lemma efIndexRehashTo_keeps (h : (db.view g).Bound g) (hs : db.sb.schemaVersion = schemaVersion)
    (hfile : db.fileSize < 2 ^ 63) (hoff : db.OffsetsOk) (ht : db.TableReadable) {newCapacity : ℕ}
    {allowShrink : Bool} (hok : (db.efIndexRehashTo newCapacity allowShrink).1 = .ok) :
    db.RehashKeeps (db.efIndexRehashTo newCapacity allowShrink).2 ↔
      (allowShrink = true → (db.liveEntries db.hashCapacity).length ≤ newCapacity) := by
  have hfit : 64 * g.n < 2 ^ 63 := by
    have hin : g.undoBase ≤ db.fileSize := h.inFile
    unfold Geometry.undoBase at hin
    omega
  have hspec := efIndexRehashTo_spec h hs hfit (EntriesOk.maps h hoff.entries) newCapacity allowShrink
  generalize db.efIndexRehashTo newCapacity allowShrink = r at hok hspec ⊢
  obtain ⟨err, db'⟩ := r
  simp only at hok hspec ⊢
  subst hok
  rcases hspec with ⟨hst, hix, hno⟩ | ⟨hpos, hlt, hgt, g', rfl, hn, hr⟩
  · obtain ⟨hsh, hpos, hle⟩ := hno rfl
    refine iff_of_true ?_ (by simp [hsh])
    exact (sameById_of_still hst).keeps h (hst.bound h) rfl hoff
      (resolve_of_index hix (congrArg Superblock.maxSlots hst.sb)) (crcExact_of_still hst h)
  · constructor
    · intro hkeeps _
      exact room_of_resolve h hn hoff.entries hpos ht hr hkeeps.keys
    · intro hroom
      have hroom' : (db.liveEntries db.hashCapacity).length ≤ g'.cap := by
        cases allowShrink with
        | true => exact hroom rfl
        | false =>
            have hlen := length_liveEntries_le db db.hashCapacity
            have hgt := hgt rfl
            omega
      exact (sameById_of_rehashed hn hr).keeps h (hr.bound h hn) hn hoff
        (resolve_of_rehashed h hn hoff.entries hpos ht hr hroom') fun _ => crcExact_of_rehashed h hn hr

/-- **A successful rehash** keeps the database, and a successful shrink keeps it if and only if the
new table has a bucket for every entry of the old one. An image with an index is a v5 image, since a
writable open migrates the older ones.
Source: `ef_index.c`, `ef_index_rehash_to`; `endfields.c`, `ef_db_init_mapped` -/
theorem efIndexRehash_keeps (hm : db.Mapped) (hs : db.sb.schemaVersion = schemaVersion)
    (hoff : db.OffsetsOk) (ht : db.TableReadable) (newCapacity : ℕ) :
    ((db.efIndexRehash newCapacity).1 = .ok →
        db.RehashKeeps (db.efIndexRehash newCapacity).2) ∧
      ((db.efIndexShrink newCapacity).1 = .ok →
        (db.RehashKeeps (db.efIndexShrink newCapacity).2 ↔
          (db.liveEntries db.hashCapacity).length ≤ newCapacity)) := by
  have hwrite : ∀ allowShrink, (db.efIndexRehashTo newCapacity allowShrink).1 = .ok →
      db.readonly = false := by
    intro allowShrink hok
    by_contra hro
    unfold efIndexRehashTo at hok
    rw [if_pos (by simpa using hro)] at hok
    cases hok
  constructor
  · intro hok
    obtain ⟨g, h⟩ := hm.geometry (hwrite false hok)
    exact (efIndexRehashTo_keeps h hs hm.bound hoff ht hok).mpr fun hf => absurd hf (by simp)
  · intro hok
    unfold efIndexShrink at hok ⊢
    by_cases h0 : newCapacity = 0
    · rw [if_pos h0] at hok
      cases hok
    rw [if_neg h0] at hok ⊢
    obtain ⟨g, h⟩ := hm.geometry (hwrite true hok)
    rw [efIndexRehashTo_keeps h hs hm.bound hoff ht hok]
    exact ⟨fun hroom => hroom rfl, fun hroom _ => hroom⟩

/-- Three keys in a table of 32 buckets, of which two have the same home among 16. -/
def sparseTable : Db :=
  let db := ((newMemory 2 32).efAllocSlot.2.2.efIndexPut [98] 0).2
  let db := (db.efIndexPut [114] 1).2
  (db.efIndexPut [105] 0).2

/-- The shrink to 16 buckets. -/
theorem efIndexRehash_keeps_of_sparse :
    let db := sparseTable
    (db.efIndexShrink 16).1 = .ok ∧ db.RehashKeeps (db.efIndexShrink 16).2 := by
  have hrun : let db := sparseTable
      db.Mapped ∧ db.sb.schemaVersion = schemaVersion ∧ db.OffsetsOk ∧ db.hashCapacity = 32 ∧
        (∀ i, i < 32 → ∀ j, j < 32 → ∀ e ∈ db.table i, ∀ e' ∈ db.table j, e.1 = e'.1 → i = j) ∧
        (∀ i, i < 32 → ∀ e ∈ db.table i, ∀ j, j ≤ RobinHood.dist 32 (efHashHome 32 e.1) i →
          (db.table ((efHashHome 32 e.1 + j) % 32)).isSome = true) ∧
        (db.efIndexShrink 16).1 = .ok ∧ (db.liveEntries db.hashCapacity).length ≤ 16 := by
    decide +kernel
  obtain ⟨hm, hs, hoff, hcap, hu, hp, hok, hroom⟩ := hrun
  refine ⟨hok, ((efIndexRehash_keeps hm hs hoff ?_ 16).2 hok).mpr hroom⟩
  unfold TableReadable
  rw [hcap]
  exact RobinHood.readable_of_lt (by norm_num) hu hp

/-- Five keys, in a database that is then opened again: the handle counts no entry. -/
def reopened : Db :=
  let db := newMemory 1 16
  let db := (db.efIndexPut [97] 0).2
  let db := (db.efIndexPut [98] 0).2
  let db := (db.efIndexPut [99] 0).2
  let db := (db.efIndexPut [100] 0).2
  let db := (db.efIndexPut [102] 0).2
  (efOpenMemoryHash db.mem db.fileSize 1 16 false Env.quiet).2

/-- A shrink to four buckets succeeds with five entries, and one of the keys is gone. -/
theorem efIndexShrink_loses_key :
    reopened.Mapped ∧ reopened.sb.schemaVersion = schemaVersion ∧ reopened.OffsetsOk ∧
      reopened.TableReadable ∧ (reopened.efIndexShrink 4).1 = .ok ∧
      ¬ reopened.RehashKeeps (reopened.efIndexShrink 4).2 := by
  have hrun : reopened.Mapped ∧ reopened.sb.schemaVersion = schemaVersion ∧ reopened.OffsetsOk ∧
      (∀ i, i < 16 → ∀ j, j < 16 → ∀ e ∈ reopened.table i, ∀ e' ∈ reopened.table j,
        e.1 = e'.1 → i = j) ∧
      (∀ i, i < 16 → ∀ e ∈ reopened.table i, ∀ j, j ≤ RobinHood.dist 16 (efHashHome 16 e.1) i →
        (reopened.table ((efHashHome 16 e.1 + j) % 16)).isSome = true) ∧
      reopened.hashCapacity = 16 ∧ (reopened.efIndexShrink 4).1 = .ok ∧
      reopened.resolve (efKeyHash [100]) = .ok 0 ∧
      (reopened.efIndexShrink 4).2.resolve (efKeyHash [100]) = .error .notFound := by decide +kernel
  obtain ⟨hm, hs, hoff, hu, hp, hcap, hok, hbefore, hafter⟩ := hrun
  refine ⟨hm, hs, hoff, ?_, hok, fun hkeeps => ?_⟩
  · unfold TableReadable
    rw [hcap]
    exact RobinHood.readable_of_lt (by norm_num) hu hp
  · have hkey := hkeeps.keys (efKeyHash [100])
    rw [hbefore, hafter] at hkey
    cases hkey

end Db

end Endfields.Model
