import Endfields.Pool.Runs

/-!
# The checksums of a run

Every slot that should carry a header checksum carries its own, in every state of a run.

* **A step** (`PoolOp.run_seals`): a safe call leaves sealed what was sealed, whatever it returns.
* **Runs** (`PoolRun.crc_consistent`): in a run of safe calls the checksum of every slot in use, of
  a chain or of the queue is the one computed for its id and contents;
  `PoolRun.crc_consistent_fails` is a run with a blob write whose growth moves the mapping.
-/

namespace Endfields.Model

open Endfields.Lib

namespace Db

variable {g : Geometry} {db : Db} {l q : List ℕ} {i maxSlots : ℕ} {env : Env}

/-- Every slot of the database that should carry a checksum carries its own. -/
def CrcConsistent (db : Db) : Prop :=
  ∀ i, i < db.sb.maxSlots → efSlotStatusHasCrc (db.slot i).status = true →
    (db.slot i).headerCrc = efSlotHeaderCrcCompute i (db.slot i)

lemma crcConsistent_of_sealed (h : (db.view g).Bound g) (hs : (db.view g).SealedBut g ∅) :
    db.CrcConsistent := by
  intro i hi
  have hmax : db.sb.maxSlots = g.n := h.maxSlots
  rw [slot_eq h.cap (by omega)]
  exact hs.slots i (by omega) (Set.notMem_empty i)

/-- The outcome of a call on a pool, in terms of the pool and of the checksums. -/
def SealsTo (g : Geometry) (db db' : Db) : Prop :=
  ∃ (g' : Geometry) (l' q' : List ℕ), (db'.view g').Pool g' l' q' ∧ (db.view g).Seals g g' (db'.view g')

lemma sealsTo_of_sealed {db' : Db} {k : ℕ} (h : PoolSealed g q k db db') : SealsTo g db db' := by
  obtain ⟨g', l', -, -, hpool, -, hseals⟩ := h
  exact ⟨g', l', q, hpool, hseals⟩

lemma sealsTo_efGrow (h : (db.view g).Pool g l q) {m : ℕ} (hroom : roomFor m)
    (hs : (PoolOp.grow m).Safe db) : SealsTo g db (db.efGrow m).2 := by
  have hn : db.sb.maxSlots = g.n := h.maxSlots
  rcases efGrow_pool h (plain hroom) rfl (hn ▸ hs) with ⟨-, hview⟩ | ⟨-, ⟨l', hpool⟩, -, hseals, -⟩
  · exact sealsTo_of_sealed (poolSealed_of_view h hview 0)
  · exact ⟨plain hroom, l', q, hpool, hseals⟩

lemma sealsTo_efQueuePop (h : (db.view g).Pool g l q) (bufCap : ℕ) :
    SealsTo g db (db.efQueuePop bufCap).2.2 := by
  rcases efQueuePop_pool h bufCap with ⟨-, -, hview⟩ | ⟨-, -, -, hview⟩ |
      ⟨i, q', -, -, -, hpool, -, hseals⟩
  · exact sealsTo_of_sealed (poolSealed_of_view h hview 0)
  · exact sealsTo_of_sealed (poolSealed_of_view h hview 0)
  · exact ⟨g, i :: l, q', hpool, hseals⟩

/-- **A step**: a safe call leads from a pool to a pool and leaves sealed what was sealed. -/
lemma PoolOp.run_seals (h : (db.view g).Pool g l q) (op : PoolOp) (ha : op.Allowed db)
    (hs : op.Safe db) :
    SealsTo g db (op.run db).2.2 := by
  have hmax : db.sb.maxSlots = g.n := h.maxSlots
  cases op with
  | allocSlot =>
      obtain ⟨l', halloc, hseals⟩ := efAllocSlotEx_allocated h true
      exact ⟨g, l', q, halloc.pool, hseals⟩
  | alloc =>
      have hroom : roomFor (db.sb.maxSlots + 1) := ha
      rw [hmax] at hroom
      obtain ⟨g', l', halloc, hseals⟩ := efAllocEx_allocated h hroom hs true
      exact ⟨g', l', q, halloc.pool, hseals⟩
  | freeSlot slotId => exact sealsTo_of_sealed (efFreeSlot_sealed h slotId)
  | grow newMaxSlots => exact sealsTo_efGrow h ha hs
  | setNextOffset slotId nextOffset =>
      exact sealsTo_of_sealed (efSetNextOffset_sealed h slotId nextOffset)
  | writePayload slotId data =>
      exact sealsTo_of_sealed (efWritePayload_sealed h data (writable_slots h ha))
  | writeBlob slotId data =>
      obtain ⟨hw, hroom⟩ : writable db slotId ∧ (data.length ≤ 0xFFFFFFFF →
        roomFor (db.sb.maxSlots + overflowNeed (data.length - 40))) := ha
      rw [hmax] at hroom
      exact sealsTo_of_sealed (efWriteBlob_sealed h data (writable_slots h hw) hroom hs)
  | push data =>
      have hroom : roomFor (db.sb.maxSlots + 1) := ha
      rw [hmax] at hroom
      obtain ⟨g', l', q', hp, hseals⟩ := efQueuePush_pool h hroom hs data
      exact ⟨g', l', q', hp.pool, hseals⟩
  | pop bufCap => exact sealsTo_efQueuePop h bufCap

/-- A new database has free slots only, and asks for checksums. -/
lemma Built.sealed (h : Built maxSlots 0 env db) (hquiet : env.contention = []) :
    ∃ (g : Geometry) (l q : List ℕ), (db.view g).Pool g l q ∧ (db.view g).SealedBut g ∅ := by
  obtain ⟨g, hn, hpool⟩ := h.pool hquiet
  obtain ⟨g', -, -, hblank⟩ := h.blank
  refine ⟨g, _, _, hpool, hblank.sb.slotCrc, fun i hi _ => Slot.sealed_of_noCrc ?_⟩
  rw [hpool.free (List.mem_range.mpr hi)]
  rfl

/-- Every state of a run of safe calls is a pool with all its checksums. -/
lemma PoolRun.sealed (h : PoolRun SafeCall db) :
    ∃ (g : Geometry) (l q : List ℕ), (db.view g).Pool g l q ∧ (db.view g).SealedBut g ∅ := by
  induction h with
  | memory buffer bufferSize maxSlots env hquiet hfits hok =>
      exact (efOpenMemoryHash_built hfits hok).sealed hquiet
  | file bytes initialSlots env hquiet hfits hok =>
      exact (efOpenExHash_built hfits hok).sealed hquiet
  | step db _ _ env hquiet op ha hc ih =>
      obtain ⟨g, l, q, hpool, hsealed⟩ := ih
      obtain ⟨g', l', q', hpool', hseals⟩ := op.run_seals (pool_withEnv hpool hquiet) ha hc
      exact ⟨g', l', q', hpool', hseals ∅ ⟨hsealed.crcOn, hsealed.slots⟩⟩

/-- **The checksums**: in every state of a run of safe calls, the handle is mapped, and every slot
that is in use, of a chain or of the queue carries the checksum that is computed for its id and
contents. -/
theorem PoolRun.crc_consistent (h : PoolRun SafeCall db) : db.isMapped = true ∧ db.CrcConsistent := by
  obtain ⟨g, l, q, hpool, hsealed⟩ := h.sealed
  exact ⟨hpool.mapped, crcConsistent_of_sealed hpool.toBound hsealed⟩

/-- A blob that makes a file of one slot grow by a slot, with the mapping where it was. -/
theorem PoolRun.crc_consistent_after_blob :
    let db := ((PoolOp.writeBlob 0 (List.replicate 41 7)).run { newFile 1 with env := Env.quiet }).2.2
    db.isMapped = true ∧ db.CrcConsistent :=
  PoolRun.crc_consistent (.step _ (poolRun_newFile _) rfl Env.quiet rfl
    (.writeBlob 0 (List.replicate 41 7)) ⟨fun _ => by decide +kernel, fun _ => by decide +kernel⟩
    fun _ _ => ⟨rfl, fun _ _ => rfl⟩)

/-- An environment that maps a file of more than `size` bytes one page lower. -/
def mapsLower (size : ℕ) : Env := { Env.quiet with mapAddr := fun n => if n ≤ size then 8192 else 4096 }

/-- A file of one slot whose mapping moves when it grows. -/
def movedBlob : Db :=
  ((PoolOp.writeBlob 0 (List.replicate 41 7)).run
    { newFile 1 with env := mapsLower (newFile 1).fileSize }).2.2

/-- The blob write returns `EF_OK`, and has stored the checksum of its head through the old mapping:
the head is in use with the checksum of a slot that was just claimed. -/
theorem PoolRun.crc_consistent_fails :
    ¬ ∀ db, PoolRun AnyCall db → db.isMapped = true ∧ db.CrcConsistent := by
  intro h
  have hrun : PoolRun AnyCall movedBlob :=
    .step _ (poolRun_newFile _) rfl (mapsLower _) rfl (.writeBlob 0 (List.replicate 41 7))
      ⟨fun _ => by decide +kernel, fun _ => by decide +kernel⟩ trivial
  have hhead := (h _ hrun).2 0 (by decide +kernel) (by decide +kernel)
  exact absurd hhead (by decide +kernel)

end Db

end Endfields.Model
