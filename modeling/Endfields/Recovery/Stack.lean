import Endfields.Recovery.Torn

/-!
# The undo log as a stack

An append keeps the tail and the number of records in the handle and in the header of the segment,
and the replay goes back from the tail by arithmetic.

* `UndoEntry`, `AppendCall`: a record as it stands in the segment, and a call that appends one.
* `Db.UndoStack db rs`: the log of the handle holds the records `rs`; it is in order, and so is its
  header.
* `UndoStack.append`: an append adds its record, or the log is full and nothing changes.
* `UndoStack.visits`: the replay visits the records newest first.
* **`Db.undoLog_stack`**: all of this after a reset and any series of appends.
-/

namespace Endfields.Model

open Endfields.Lib

/-- A record of the undo log.
Source: `ef_undo.h`, `struct ef_undo_record` -/
structure UndoEntry where
  kind : ℕ
  target : ℕ
  aux : ℕ
  before : List UInt8
  deriving DecidableEq

/-- The record at an address. -/
def UndoEntry.read (m : Mem) (a : ℕ) : UndoEntry where
  kind := load m a 1
  target := load m (a + 4) 8
  aux := load m (a + 12) 8
  before := readBytes m (a + 20) 12

/-- The arguments of an append; the snapshot may be a null pointer.
Source: `ef_undo.c`, `ef_undo_record_append` -/
structure AppendCall where
  kind : ℕ
  target : ℕ
  aux : ℕ
  before : Option (List UInt8)

/-- The arguments are in the ranges of their C types, and a snapshot has the twelve bytes that are
copied. -/
structure AppendCall.Typed (c : AppendCall) : Prop where
  kind : c.kind < 256
  target : c.target < u64
  aux : c.aux < u64
  before : ∀ bytes, c.before = some bytes → bytes.length = 12

/-- The record that the call appends. -/
def AppendCall.record (c : AppendCall) : UndoEntry :=
  ⟨c.kind, c.target, c.aux, c.before.getD (List.replicate 12 0)⟩

/-- The positions of `n` records, newest first. -/
def newestFirst (n : ℕ) : List ℕ := (List.range n).reverse.map fun i => 32 + 32 * i

namespace Db

/-- The call on a handle. -/
def appendCall (db : Db) (c : AppendCall) : Err × Db :=
  db.efUndoRecordAppendRaw c.kind c.target c.aux c.before

/-- A series of calls. -/
def appendCalls (db : Db) (cs : List AppendCall) : Db := cs.foldl (fun db c => (db.appendCall c).2) db

/-- The positions that the replay visits.
Source: `ef_undo.c`, `ef_undo_replay_reverse` -/
def replayVisits (db : Db) : List ℕ :=
  match db.efUndoHeaderPtr with
  | none => []
  | some h =>
      if load db.mem h 4 = 0 then []
      else replayReads h (load db.mem (h + 8) 8 / 32 + 1) (load db.mem (h + 8) 8) db

/-- The handle is in a transaction and has an undo segment. -/
structure Logs (db : Db) : Prop where
  active : db.txnActive = true
  base : db.undoLogBase ≠ 0
  slots : db.undoLogSlots < u32

/-- The log holds the records `rs`, oldest first. -/
structure UndoStack (db : Db) (rs : List UndoEntry) : Prop where
  tail : db.undoTail = 32 + 32 * rs.length
  count : db.undoRecordCount = rs.length
  room : rs.length ≤ db.undoLogSlots
  blank : rs = [] → db.undoHeader.magic = 0
  magic : rs ≠ [] → db.undoHeader.magic = undoHeaderMagic
  storedTail : rs ≠ [] → db.undoHeader.tail = db.undoTail
  storedCount : rs ≠ [] → db.undoHeader.recordCount = db.undoRecordCount
  storedCrc : rs ≠ [] → db.undoHeader.crc = efUndoHeaderCrcCompute db.undoHeader
  records : ∀ i (hi : i < rs.length),
    UndoEntry.read db.mem (db.undoLogBase + (32 + 32 * i)) = rs[i]

variable {db db' : Db} {rs : List UndoEntry} {c : AppendCall}

/-! ### Writing a record -/

/-- A record depends on its 32 bytes alone. -/
lemma UndoEntry_read_congr {m m' : Mem} {a : ℕ} (h : ∀ x, a ≤ x → x < a + 32 → m x = m' x) :
    UndoEntry.read m a = UndoEntry.read m' a := by
  unfold UndoEntry.read
  rw [load_congr fun x hx hx' => h x (by omega) (by omega),
    load_congr (a := a + 4) fun x hx hx' => h x (by omega) (by omega),
    load_congr (a := a + 12) fun x hx hx' => h x (by omega) (by omega),
    readBytes_congr fun x hx hx' => h x (by omega) (by omega)]

/-- The bytes with the words of a record written, over zeroes. -/
def recordWords (m : Mem) (a kind target aux : ℕ) : Mem :=
  Lib.store (Lib.store (Lib.store (Lib.store (memset m a 0 32) a 1 kind) (a + 2) 2 32) (a + 4) 8 target)
    (a + 12) 8 aux

/-- The words of a record leave the other bytes alone. -/
lemma recordWords_of_outside (m : Mem) (kind target aux : ℕ) {a x : ℕ} (hx : x < a ∨ a + 32 ≤ x) :
    recordWords m a kind target aux x = m x := by
  unfold recordWords
  rw [store_apply_of_outside (by omega), store_apply_of_outside (by omega),
    store_apply_of_outside (by omega), store_apply_of_outside (by omega),
    memset_apply_of_outside (by omega)]

/-- Where the snapshot belongs there are zeroes. -/
lemma recordWords_snapshot (m : Mem) (kind target aux : ℕ) {a x : ℕ} (hx : a + 20 ≤ x)
    (hx' : x < a + 32) : recordWords m a kind target aux x = 0 := by
  unfold recordWords
  rw [store_apply_of_outside (by omega), store_apply_of_outside (by omega),
    store_apply_of_outside (by omega), store_apply_of_outside (by omega),
    memset_apply_of_inside (by omega) (by omega)]

/-- The words read back, whatever the snapshot is. -/
lemma load_recordWords {m m' : Mem} {a kind target aux : ℕ} (hkind : kind < 256)
    (htarget : target < u64)
    (haux : aux < u64) (hm : ∀ x, a ≤ x → x < a + 20 → m' x = recordWords m a kind target aux x) :
    load m' a 1 = kind ∧ load m' (a + 4) 8 = target ∧ load m' (a + 12) 8 = aux := by
  have hload : ∀ b w, a ≤ b → b + w ≤ a + 20 →
      load m' b w = load (recordWords m a kind target aux) b w :=
    fun b w hb hw => load_congr fun x hx hx' => hm x (by omega) (by omega)
  refine ⟨?_, ?_, ?_⟩
  · rw [hload a 1 le_rfl (by omega), recordWords, load_store_of_disjoint (by omega),
      load_store_of_disjoint (by omega), load_store_of_disjoint (by omega), load_store_self, pow_one]
    exact Nat.mod_eq_of_lt hkind
  · rw [hload (a + 4) 8 (by omega) (by omega), recordWords, load_store_of_disjoint (by omega),
      load_store_self]
    exact Nat.mod_eq_of_lt htarget
  · rw [hload (a + 12) 8 (by omega) (by omega), recordWords, load_store_self]
    exact Nat.mod_eq_of_lt haux

/-- A record is written inside its 32 bytes. -/
lemma mem_writeRawRecord_of_outside (hc : c.Typed) {a x : ℕ} (hx : x < a ∨ a + 32 ≤ x) :
    (db.writeRawRecord a c.kind c.target c.aux c.before).mem x = db.mem x := by
  unfold writeRawRecord
  rcases hb : c.before with _ | bytes
  · exact recordWords_of_outside db.mem _ _ _ hx
  · have hlen := hc.before bytes hb
    show writeBytes (recordWords db.mem a c.kind c.target c.aux) (a + 20) bytes x = _
    rw [writeBytes_apply_of_outside (by omega)]
    exact recordWords_of_outside db.mem _ _ _ hx

/-- A written record reads back. -/
lemma read_writeRawRecord (hc : c.Typed) (db : Db) (a : ℕ) :
    UndoEntry.read (db.writeRawRecord a c.kind c.target c.aux c.before).mem a = c.record := by
  obtain ⟨hkind, htarget, haux, hbefore⟩ := hc
  obtain ⟨kind, target, aux, before⟩ := c
  simp only at hkind htarget haux hbefore ⊢
  unfold AppendCall.record UndoEntry.read
  rw [UndoEntry.mk.injEq]
  cases before with
  | none =>
      obtain ⟨h₁, h₂, h₃⟩ := load_recordWords (m := db.mem) hkind htarget haux
        (fun _ _ _ => rfl : ∀ x, a ≤ x → x < a + 20 →
          (db.writeRawRecord a kind target aux none).mem x = recordWords db.mem a kind target aux x)
      have hzero : ∀ x, a + 20 ≤ x → x < a + 20 + 12 →
          (db.writeRawRecord a kind target aux none).mem x =
            writeBytes db.mem (a + 20) (List.replicate 12 0) x := by
        intro x hx hx'
        rw [← memset_eq_writeBytes, memset_apply_of_inside hx hx']
        exact recordWords_snapshot db.mem kind target aux hx (by omega)
      have hself := readBytes_writeBytes_self db.mem (a + 20) (List.replicate 12 0)
      rw [List.length_replicate] at hself
      exact ⟨h₁, h₂, h₃, (readBytes_congr hzero).trans hself⟩
  | some bytes =>
      have hlen := hbefore bytes rfl
      obtain ⟨h₁, h₂, h₃⟩ := load_recordWords (m := db.mem) hkind htarget haux
        (fun x _ hx => writeBytes_apply_of_outside (.inl hx) : ∀ x, a ≤ x → x < a + 20 →
          (db.writeRawRecord a kind target aux (some bytes)).mem x =
            recordWords db.mem a kind target aux x)
      have hself := readBytes_writeBytes_self (recordWords db.mem a kind target aux) (a + 20) bytes
      rw [hlen] at hself
      exact ⟨h₁, h₂, h₃, hself⟩

/-! ### The header -/

/-- A store of the checksum changes the checksum of the header only. -/
lemma read_storeCrc (m : Mem) (h crc : ℕ) :
    UndoHeader.read (Lib.store m (h + 4) 4 crc) h =
      { UndoHeader.read m h with crc := crc % 256 ^ 4 } := by
  unfold UndoHeader.read
  rw [load_store_self, load_store_of_disjoint (by omega), load_store_of_disjoint (by omega),
    load_store_of_disjoint (by omega), load_store_of_disjoint (by omega),
    readBytes_congr fun x hx _ => store_apply_of_outside (.inr (by omega))]

/-- The checksum fits its word.
Source: `ef_undo.c`, `ef_undo_header_crc_compute` -/
lemma efUndoHeaderCrcCompute_lt (h : UndoHeader) : efUndoHeaderCrcCompute h < 2 ^ 32 := by
  have hstart : (0xFFFFFFFF : ℕ) < 2 ^ 32 := by norm_num
  unfold efUndoHeaderCrcCompute
  refine Nat.xor_lt_two_pow ?_ hstart
  repeat apply efCrc32Update_lt
  exact hstart

/-- The header after an append: the magic word, the tail and the count of the handle, and the
checksum over them. -/
lemma undoHeader_writeUndoHeader (db : Db) (h : ℕ) :
    (UndoHeader.read (db.writeUndoHeader h).mem h).magic = undoHeaderMagic ∧
      (UndoHeader.read (db.writeUndoHeader h).mem h).tail = db.undoTail % u64 ∧
      (UndoHeader.read (db.writeUndoHeader h).mem h).recordCount = db.undoRecordCount % u32 ∧
      (UndoHeader.read (db.writeUndoHeader h).mem h).crc =
        efUndoHeaderCrcCompute (UndoHeader.read (db.writeUndoHeader h).mem h) := by
  obtain ⟨hmagic, htail⟩ := load_writeUndoHeader db h
  refine ⟨hmagic, htail, ?_, ?_⟩
  · show load (db.writeUndoHeader h).mem (h + 16) 4 = _
    unfold writeUndoHeader Db.store
    simp only [mem_withMem, withMem_undoRecordCount]
    rw [load_store_of_disjoint (by omega)]
    split_ifs
    · rw [mem_withMem, load_store_of_disjoint (by omega), load_store_self]
      rfl
    · rw [mem_withMem, load_store_self]
      rfl
  · -- the checksum is stored last, over a header that has all the rest
    have hlast : ∃ m, (db.writeUndoHeader h).mem =
        Lib.store m (h + 4) 4 (efUndoHeaderCrcCompute (UndoHeader.read m h)) := ⟨_, rfl⟩
    obtain ⟨m, hm⟩ := hlast
    rw [hm, read_storeCrc]
    exact Nat.mod_eq_of_lt (efUndoHeaderCrcCompute_lt _)

/-! ### One append -/

/-- The reset empties the log. -/
lemma undoStack_efUndoReset (h : db.Logs) : db.efUndoReset.Logs ∧ UndoStack db.efUndoReset [] := by
  have hreset : db.efUndoReset = ({ db.zero db.undoLogBase (undoLogBytes db.undoLogSlots) with
      undoTail := 32, undoRecordCount := 0 } : Db).efDbMarkMetaDirty := by
    unfold efUndoReset efUndoHeaderPtr
    rw [if_neg h.base]
  rw [hreset]
  refine ⟨⟨h.active, h.base, h.slots⟩, rfl, rfl, Nat.zero_le _, fun _ => ?_, ?_, ?_, ?_, ?_, ?_⟩
  · show load (memset db.mem db.undoLogBase 0 (undoLogBytes db.undoLogSlots)) db.undoLogBase 4 = 0
    refine load_eq_zero fun x hx hx' => memset_apply_of_inside hx ?_
    unfold undoLogBytes
    omega
  · exact fun hne => absurd rfl hne
  · exact fun hne => absurd rfl hne
  · exact fun hne => absurd rfl hne
  · exact fun hne => absurd rfl hne
  · intro i hi
    cases hi

/-- The handle after the record itself is written, with its counters moved on. -/
def rawWritten (db : Db) (c : AppendCall) : Db :=
  { db.writeRawRecord (db.undoLogBase + db.undoTail) c.kind c.target c.aux c.before with
    undoTail := db.undoTail + 32
    undoRecordCount := (db.undoRecordCount + 1) % u32 }

/-- With room an append writes the record, then the header.
Source: `ef_undo.c`, `ef_undo_record_append` -/
lemma appendCall_of_room (hlogs : db.Logs) (c : AppendCall)
    (hroom : db.undoTail + 32 ≤ undoLogBytes db.undoLogSlots) :
    db.appendCall c =
      (.ok, ((db.rawWritten c).writeUndoHeader db.undoLogBase).efDbMarkMetaDirty) := by
  unfold appendCall efUndoRecordAppendRaw efUndoHeaderPtr
  simp only [hlogs.active, Bool.true_eq_false, if_false, hlogs.base, Nat.not_lt.mpr hroom]
  unfold rawWritten writeRawRecord
  cases c.before with
  | none => rfl
  | some bytes => rfl

/-- A record changes the bytes and the counters only. -/
lemma rawWritten_eq (db : Db) (c : AppendCall) : db.rawWritten c =
    { db.withMem (db.rawWritten c).mem with
      undoTail := db.undoTail + 32
      undoRecordCount := (db.undoRecordCount + 1) % u32 } := by
  unfold rawWritten writeRawRecord
  cases c.before with
  | none => rfl
  | some bytes => rfl

/-- **An append** to a log with room adds its record. -/
lemma UndoStack.append_of_room (h : UndoStack db rs) (hlogs : db.Logs) (hc : c.Typed)
    (hroom : rs.length < db.undoLogSlots) :
    (db.appendCall c).1 = .ok ∧ (db.appendCall c).2.Logs ∧
      (db.appendCall c).2.undoLogSlots = db.undoLogSlots ∧
      UndoStack (db.appendCall c).2 (rs ++ [c.record]) := by
  have htail := h.tail
  have hcount := h.count
  have hslots := hlogs.slots
  have hne : rs ++ [c.record] ≠ [] := by simp
  have hlen : (rs ++ [c.record]).length = rs.length + 1 := by simp
  have hfits : db.undoTail + 32 ≤ undoLogBytes db.undoLogSlots := by
    unfold undoLogBytes
    omega
  rw [appendCall_of_room hlogs c hfits]
  obtain ⟨hmagic, hstored, hstoredCount, hcrc⟩ :=
    undoHeader_writeUndoHeader (db.rawWritten c) db.undoLogBase
  have hmem : ∀ x, db.undoLogBase + 32 ≤ x →
      ((db.rawWritten c).writeUndoHeader db.undoLogBase).mem x = (db.rawWritten c).mem x :=
    fun x hx => writeUndoHeader_mem_of_outside (.inr (by omega))
  rw [writeUndoHeader_eq_withMem] at hmagic hstored hstoredCount hcrc hmem ⊢
  generalize ((db.rawWritten c).writeUndoHeader db.undoLogBase).mem = m
    at hmagic hstored hstoredCount hcrc hmem ⊢
  have hraw : (db.rawWritten c).mem =
      (db.writeRawRecord (db.undoLogBase + db.undoTail) c.kind c.target c.aux c.before).mem := rfl
  rw [hraw] at hmem
  rw [rawWritten_eq] at hmagic hstored hstoredCount hcrc hmem ⊢
  refine ⟨rfl, ⟨hlogs.active, hlogs.base, hlogs.slots⟩, rfl, ?_, ?_, ?_, ?_, ?_, ?_, ?_, ?_, ?_⟩
  · show db.undoTail + 32 = _
    omega
  · show (db.undoRecordCount + 1) % u32 = _
    rw [hcount, hlen]
    exact Nat.mod_eq_of_lt (by omega)
  · show (rs ++ [c.record]).length ≤ db.undoLogSlots
    omega
  · exact fun hnil => absurd hnil hne
  · exact fun _ => hmagic
  · intro _
    refine hstored.trans (Nat.mod_eq_of_lt ?_)
    show db.undoTail + 32 < u64
    unfold u32 at hslots
    unfold u64
    omega
  · intro _
    exact hstoredCount.trans (Nat.mod_mod _ _)
  · exact fun _ => hcrc
  · intro i hi
    have hread : UndoEntry.read m (db.undoLogBase + (32 + 32 * i)) = UndoEntry.read
        (db.writeRawRecord (db.undoLogBase + db.undoTail) c.kind c.target c.aux c.before).mem
        (db.undoLogBase + (32 + 32 * i)) :=
      UndoEntry_read_congr fun x hx _ => hmem x (by omega)
    refine hread.trans ?_
    rcases Nat.lt_or_ge i rs.length with hold | hnew
    · -- an old record lies before the new one
      rw [List.getElem_append_left hold, ← h.records i hold]
      exact UndoEntry_read_congr fun x _ hx => mem_writeRawRecord_of_outside hc (.inl (by omega))
    · obtain rfl : i = rs.length := by omega
      rw [List.getElem_concat_length rfl, ← htail]
      exact read_writeRawRecord hc db _

/-- An append to a full log changes nothing. -/
lemma UndoStack.append_of_full (h : UndoStack db rs) (hlogs : db.Logs) (c : AppendCall)
    (hfull : rs.length = db.undoLogSlots) :
    db.appendCall c = (.txnLogFull, db.setError .txnLogFull) := by
  have htail := h.tail
  have hover : undoLogBytes db.undoLogSlots < db.undoTail + 32 := by
    unfold undoLogBytes
    omega
  unfold appendCall efUndoRecordAppendRaw efUndoHeaderPtr
  simp only [hlogs.active, Bool.true_eq_false, if_false, hlogs.base, if_pos hover]

/-- A stored error leaves the log alone. -/
lemma UndoStack.setError (h : UndoStack db rs) (err : Err) : UndoStack (db.setError err) rs :=
  ⟨h.tail, h.count, h.room, h.blank, h.magic, h.storedTail, h.storedCount, h.storedCrc, h.records⟩

/-! ### The replay -/

/-- From the end of `n` records on the loop visits them newest first, up to the first one whose
inverse action fails. -/
lemma replayReads_records (h : ℕ) {n fuel : ℕ} (hfuel : n < fuel) (db : Db) :
    replayReads h fuel (32 + 32 * n) db <+: newestFirst n ∧
      ((replayLoop h fuel (32 + 32 * n) db).1 = .ok →
        replayReads h fuel (32 + 32 * n) db = newestFirst n) := by
  induction n generalizing fuel db with
  | zero =>
      have hnil : replayReads h fuel (32 + 32 * 0) db = [] := by
        cases fuel with
        | zero => rfl
        | succ fuel => exact if_pos (by omega)
      rw [hnil]
      exact ⟨List.nil_prefix, fun _ => rfl⟩
  | succ n ih =>
      obtain ⟨fuel, rfl⟩ : ∃ f, fuel = f + 1 := ⟨fuel - 1, by omega⟩
      have hpos : ¬ 32 + 32 * (n + 1) ≤ 32 := by omega
      have hsub : 32 + 32 * (n + 1) - 32 = 32 + 32 * n := by omega
      have hnewest : newestFirst (n + 1) = (32 + 32 * n) :: newestFirst n := by
        unfold newestFirst
        rw [List.range_succ, List.reverse_append, List.map_append]
        rfl
      unfold replayReads replayLoop
      rw [if_neg hpos, if_neg hpos, hsub, hnewest]
      generalize db.replayRecord (h + (32 + 32 * n)) = r
      obtain ⟨err, db₁⟩ := r
      cases err with
      | ok =>
          obtain ⟨hseen, heq⟩ := ih (by omega : n < fuel) db₁
          refine ⟨(List.prefix_cons_inj _).mpr hseen, fun hok => ?_⟩
          exact congrArg _ (heq hok)
      | _ =>
          refine ⟨(List.prefix_cons_inj _).mpr List.nil_prefix, fun hok => ?_⟩
          cases hok

/-- **The replay** visits the records of the log newest first, each once, up to the first one whose
inverse action fails. -/
lemma UndoStack.visits (h : UndoStack db rs) (hlogs : db.Logs) :
    db.replayVisits <+: newestFirst rs.length ∧
      (db.efUndoReplayReverse.1 = .ok → db.replayVisits = newestFirst rs.length) := by
  have hslots := hlogs.slots
  have hroom := h.room
  unfold replayVisits efUndoReplayReverse efUndoHeaderPtr
  rw [if_neg hlogs.base]
  simp only
  by_cases hrs : rs = []
  · have hmagic : load db.mem db.undoLogBase 4 = 0 := h.blank hrs
    rw [if_pos hmagic, if_pos hmagic, hrs]
    exact ⟨List.nil_prefix, fun _ => rfl⟩
  · have hmagic : load db.mem db.undoLogBase 4 = undoHeaderMagic := h.magic hrs
    have hne : ¬ load db.mem db.undoLogBase 4 = 0 := by
      rw [hmagic]
      decide
    have htail : load db.mem (db.undoLogBase + 8) 8 = 32 + 32 * rs.length :=
      (h.storedTail hrs).trans h.tail
    rw [if_neg hne, if_neg hne, htail]
    exact replayReads_records db.undoLogBase (by omega) db

/-! ### Any series of appends -/

/-- A series of appends to a log: the log holds the records up to the one that did not fit. -/
lemma UndoStack.appendCalls {cs : List AppendCall} (h : UndoStack db rs) (hlogs : db.Logs)
    (hcs : ∀ c ∈ cs, c.Typed) : (db.appendCalls cs).Logs ∧
      UndoStack (db.appendCalls cs) ((rs ++ cs.map AppendCall.record).take db.undoLogSlots) := by
  induction cs generalizing db rs with
  | nil =>
      rw [List.map_nil, List.append_nil, List.take_of_length_le h.room]
      exact ⟨hlogs, h⟩
  | cons c cs ih =>
      have hcs' : ∀ d ∈ cs, d.Typed := fun d hd => hcs d (List.mem_cons_of_mem c hd)
      show ((db.appendCall c).2.appendCalls cs).Logs ∧
        UndoStack ((db.appendCall c).2.appendCalls cs) _
      rcases Nat.lt_or_ge rs.length db.undoLogSlots with hroom | hfull
      · obtain ⟨-, hlogs', hslots, h'⟩ := h.append_of_room hlogs (hcs c List.mem_cons_self) hroom
        have hrest := ih h' hlogs' hcs'
        rwa [hslots, List.append_assoc] at hrest
      · have hlen : rs.length = db.undoLogSlots := le_antisymm h.room hfull
        rw [h.append_of_full hlogs c hlen]
        have hrest := ih (h.setError .txnLogFull) ⟨hlogs.active, hlogs.base, hlogs.slots⟩ hcs'
        have htake : ∀ post : List UndoEntry, (rs ++ post).take db.undoLogSlots = rs := fun post => by
          rw [← hlen]
          exact List.take_left
        rw [htake]
        have hslots : (db.setError .txnLogFull).undoLogSlots = db.undoLogSlots := rfl
        rwa [hslots, htake] at hrest

/-- What the log of a handle with `n` records owes: tail, count and header agree, the next append
adds one record or finds the log full and changes nothing, and the replay visits the records newest
first.
Source: `ef_undo.c`, `ef_undo_record_append` and `ef_undo_replay_reverse` -/
structure StackOf (db : Db) (rs : List UndoEntry) : Prop where
  stack : UndoStack db rs
  tail : db.undoTail = 32 + 32 * db.undoRecordCount
  storedTail : 0 < db.undoRecordCount → db.undoHeader.tail = 32 + 32 * db.undoRecordCount
  room : db.undoRecordCount ≤ db.undoLogSlots
  valid : 0 < db.undoRecordCount → efUndoHeaderCrcCompute db.undoHeader ≠ 0 →
    efUndoHeaderValid db.undoHeader = true
  append : ∀ c : AppendCall, c.Typed →
    ((db.appendCall c).1 = .ok ∧ (db.appendCall c).2.undoRecordCount = db.undoRecordCount + 1 ∧
      UndoStack (db.appendCall c).2 (rs ++ [c.record])) ∨
    ((db.appendCall c).1 = .txnLogFull ∧ (db.appendCall c).2 = db.setError .txnLogFull)
  visited : db.replayVisits <+: newestFirst db.undoRecordCount
  visits : db.efUndoReplayReverse.1 = .ok → db.replayVisits = newestFirst db.undoRecordCount

/-- A log in order is the stack of its records. -/
lemma UndoStack.stackOf (h : UndoStack db rs) (hlogs : db.Logs) : StackOf db rs := by
  have hcount := h.count
  have hne : 0 < db.undoRecordCount → rs ≠ [] := by
    rintro hpos rfl
    rw [hcount] at hpos
    exact absurd hpos (lt_irrefl 0)
  have hvisits := h.visits hlogs
  rw [← hcount] at hvisits
  refine ⟨h, ?_, ?_, ?_, ?_, ?_, hvisits.1, hvisits.2⟩
  · rw [hcount]
    exact h.tail
  · intro hpos
    rw [h.storedTail (hne hpos), h.tail, hcount]
  · rw [hcount]
    exact h.room
  · intro hpos hcrc
    unfold efUndoHeaderValid
    have hstored := h.storedCrc (hne hpos)
    exact decide_eq_true ⟨h.magic (hne hpos), by rw [hstored]; exact hcrc, hstored⟩
  · intro c hc
    rcases Nat.lt_or_ge rs.length db.undoLogSlots with hroom | hfull
    · obtain ⟨hok, -, -, h'⟩ := h.append_of_room hlogs hc hroom
      refine .inl ⟨hok, ?_, h'⟩
      rw [h'.count, hcount]
      simp
    · rw [h.append_of_full hlogs c (le_antisymm h.room hfull)]
      exact .inr ⟨rfl, rfl⟩

/-- **The undo log is a stack**: after a reset in a transaction and any series of appends, the log
holds the records appended, in their order and as far as there is room, tail, count and header
agree, and the replay visits them newest first, each once.
Source: `ef_undo.c`, `ef_undo_reset`, `ef_undo_record_append` and `ef_undo_replay_reverse` -/
theorem undoLog_stack (hlogs : db.Logs) {cs : List AppendCall} (hcs : ∀ c ∈ cs, c.Typed) :
    StackOf (db.efUndoReset.appendCalls cs) ((cs.map AppendCall.record).take db.undoLogSlots) := by
  obtain ⟨hlogs₀, hstack₀⟩ := undoStack_efUndoReset hlogs
  obtain ⟨hlogs', hstack⟩ := hstack₀.appendCalls hlogs₀ hcs
  have hslots : db.efUndoReset.undoLogSlots = db.undoLogSlots := (sized_efUndoReset db).undoLogSlots
  rw [List.nil_append, hslots] at hstack
  exact hstack.stackOf hlogs'

/-- A log of two records, appended to three times. -/
theorem undoLog_stack_of_two :
    let db : Db := { newMemory 1 0 with txnActive := true, undoLogSlots := 2 }
    let c : AppendCall := ⟨4, 64, 0, some (List.replicate 12 7)⟩
    StackOf (db.efUndoReset.appendCalls [c, ⟨10, 0, 1, none⟩, c])
      ((([c, ⟨10, 0, 1, none⟩, c] : List AppendCall).map AppendCall.record).take 2) := by
  intro db c
  have hc : c.Typed := ⟨by decide, by decide, by decide, by simp [c]⟩
  have hcount : AppendCall.Typed ⟨10, 0, 1, none⟩ := ⟨by decide, by decide, by decide, by simp⟩
  refine undoLog_stack ⟨rfl, by decide +kernel, by decide +kernel⟩ ?_
  simp [hc, hcount]

end Db

end Endfields.Model
