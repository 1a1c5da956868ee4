import Endfields.Lib.Fifo
import Endfields.Pool.Open

/-!
# Runs on a database without a hash index

Calls that allocate, free, grow, link, write, push and pop, from a new database on, with no
transaction and nothing else at work on the image.

* `PoolOp`: the calls; `PoolOp.run` makes one, `PoolOp.event` is what it shows of the queue.
* `PoolOp.Allowed db op`: the sizes that the call may lead to do not overflow, and a write goes to a
  slot that is `FREE` or `USED`.
* `PoolOp.Safe db op`: what the system has to do for the call, if the call has to grow a file. A
  growth unmaps the file before it can fail, and `ef_write_blob` keeps pointers over it.
* **A step** (`PoolOp.run_pool`): every safe call leads from a pool to a pool, and does to the
  pending messages what its outcome says.
* **The free list** (`PoolRun.free_list`): in every state of a run of safe calls the links from the
  head visit every `FREE` slot once and no other slot, and the free count is their number;
  `PoolRun.free_list_fails` is a run with a growth that fails.
-/

namespace Endfields.Model

open Endfields.Lib

namespace Db

/-! ### What a growth needs -/

/-- An allocation finds no slot on the free list. -/
def Dry (db : Db) : Prop := db.sb.freeListHead = 0 ∨ db.sb.freeCount = 0

instance (db : Db) : Decidable db.Dry := inferInstanceAs (Decidable (_ ∨ _))

/-- The system calls of a growth succeed. -/
def Growable (db : Db) : Prop := db.backend = .file → db.env.growFileErr = none

/-! ### The calls -/

/-- The calls of a run. -/
inductive PoolOp
  | allocSlot
  | alloc
  | freeSlot (slotId : ℕ)
  | grow (newMaxSlots : ℕ)
  | setNextOffset (slotId nextOffset : ℕ)
  | writePayload (slotId : ℕ) (data : List UInt8)
  | writeBlob (slotId : ℕ) (data : List UInt8)
  | push (data : List UInt8)
  | pop (bufCap : ℕ)

namespace PoolOp

/-- The call, with the message that it delivers. -/
def run (op : PoolOp) (db : Db) : Err × List UInt8 × Db :=
  match op with
  | allocSlot => (db.efAllocSlot.1, [], db.efAllocSlot.2.2)
  | alloc => (db.efAlloc.1, [], db.efAlloc.2.2)
  | freeSlot slotId => ((db.efFreeSlot slotId).1, [], (db.efFreeSlot slotId).2)
  | grow newMaxSlots => ((db.efGrow newMaxSlots).1, [], (db.efGrow newMaxSlots).2)
  | setNextOffset slotId nextOffset =>
      ((db.efSetNextOffset slotId nextOffset).1, [], (db.efSetNextOffset slotId nextOffset).2)
  | writePayload slotId data =>
      ((db.efWritePayload slotId data).1, [], (db.efWritePayload slotId data).2)
  | writeBlob slotId data => ((db.efWriteBlob slotId data).1, [], (db.efWriteBlob slotId data).2)
  | push data => ((db.efQueuePush data).1, [], (db.efQueuePush data).2)
  | pop bufCap => db.efQueuePop bufCap

/-- What the call shows of the queue. -/
def event (op : PoolOp) (r : Err × List UInt8 × Db) : Fifo.Event (List UInt8) :=
  match op with
  | push data => if r.1 = .ok then .pushed data else .silent
  | pop _ => if r.1 = .ok then .popped r.2.1 else if r.1 = .queueEmpty then .empty else .silent
  | _ => .silent

/-- The slot is in use or free, if there is one. -/
def writable (db : Db) (slotId : ℕ) : Prop :=
  slotId < db.sb.maxSlots →
    (db.slot slotId).status = statusFree ∨ (db.slot slotId).status = statusUsed

/-- The layouts that a call may lead to do not overflow, and a write goes to a slot that is free or
in use. -/
def Allowed (db : Db) : PoolOp → Prop
  | alloc => roomFor (db.sb.maxSlots + 1)
  | grow newMaxSlots => roomFor newMaxSlots
  | writePayload slotId _ => writable db slotId
  | writeBlob slotId data =>
      writable db slotId ∧ (data.length ≤ 0xFFFFFFFF →
        roomFor (db.sb.maxSlots + overflowNeed (data.length - 40)))
  | push _ => roomFor (db.sb.maxSlots + 1)
  | _ => True

/-- What the system does for the call, if it has to grow a file: the file is resized and mapped
again; and it stays at its address for a blob write, which goes on with pointers into the old
mapping. -/
def Safe (db : Db) : PoolOp → Prop
  | alloc | push _ => db.Dry → db.Growable
  | grow newMaxSlots => db.sb.maxSlots < newMaxSlots → db.Growable
  | writeBlob slotId data => db.Outgrows slotId data → db.GrowableInPlace
  | _ => True

/-- A buffer is not mapped again. -/
lemma safe_of_memory {db : Db} (hmem : db.backend = .memory) (op : PoolOp) : op.Safe db := by
  have hgrow : db.Growable := fun hf => absurd (hmem.symm.trans hf) (by simp)
  cases op with
  | alloc => exact fun _ => hgrow
  | push data => exact fun _ => hgrow
  | grow m => exact fun _ => hgrow
  | writeBlob i data => exact fun _ hf => absurd (hmem.symm.trans hf) (by simp)
  | _ => trivial

end PoolOp

/-! ### A step -/

variable {g : Geometry} {db : Db} {l q : List ℕ} {env : Env}

/-- A pool does not depend on what the system calls will do. -/
lemma pool_withEnv (h : (db.view g).Pool g l q) (hquiet : env.contention = []) :
    (({ db with env := env } : Db).view g).Pool g l q :=
  ⟨⟨⟨h.cap, h.inFile, h.writable, h.maxSlots⟩, h.mapped, h.schema, h.noIndex, h.noTable,
      h.undoSlots, h.idle,
    hquiet, h.queueLock, h.indexLock⟩, h.linked, h.nodup, h.mem_iff, h.count,
    h.queue.congr_off rfl rfl fun _ _ => rfl⟩

/-- The slot that a write may go to, in the view. -/
lemma writable_slots (h : (db.view g).Pool g l q) {i : ℕ} (hw : PoolOp.writable db i) (hi : i < g.n) :
    ((db.view g).slots i).status = statusFree ∨ ((db.view g).slots i).status = statusUsed := by
  have hmax : db.sb.maxSlots = g.n := h.maxSlots
  rw [← slot_eq h.cap hi]
  exact hw (by omega)

/-- The outcome of a call on a pool, in terms of the pool and of the pending messages. -/
def StepsTo (db : Db) (e : Fifo.Event (List UInt8)) (db' : Db) : Prop :=
  ∃ (g' : Geometry) (l' q' : List ℕ), (db'.view g').Pool g' l' q' ∧ Fifo.Step db.pending e db'.pending

/-- A call that keeps the queue. -/
lemma stepsTo_of_kept {db' : Db} {k : ℕ} (h : (db.view g).Pool g l q) (hk : PoolKept g q k db db') :
    StepsTo db .silent db' := by
  obtain ⟨g', l', -, -, hpool, hq⟩ := hk
  refine ⟨g', l', q, hpool, ?_⟩
  show db'.pending = db.pending
  rw [pending_eq hpool.toBound hpool.queue, pending_eq h.toBound h.queue]
  exact List.map_congr_left fun j hj => by rw [hq j hj]

/-- An allocation, whatever it returns, keeps the queue. -/
lemma stepsTo_of_allocated {r : Err × ℕ × Db} {g' : Geometry} {l' : List ℕ}
    (h : (db.view g).Pool g l q) (ha : Allocated g l q db r g' l') : StepsTo db .silent r.2.2 := by
  refine stepsTo_of_kept (k := 1) h ⟨g', l', ha.le, ha.le_succ, ha.pool, fun j hj => ?_⟩
  have hoff := status_of_mem_queue h hj
  exact ha.kept j hoff.2 (by rw [hoff.1]; simp)

lemma stepsTo_efGrow (h : (db.view g).Pool g l q) {m : ℕ} (hroom : roomFor m)
    (hs : (PoolOp.grow m).Safe db) : StepsTo db .silent (db.efGrow m).2 := by
  have hn : db.sb.maxSlots = g.n := h.maxSlots
  rcases efGrow_pool h (plain hroom) rfl (hn ▸ hs) with ⟨-, hview⟩ | ⟨hlt, ⟨l', hpool⟩, hslots, -⟩
  · exact stepsTo_of_kept h (poolSealed_of_view h hview 0).kept
  · have hle : g.n ≤ m := hlt.le
    exact stepsTo_of_kept h ⟨plain hroom, l', hle, (show m ≤ g.n + m by omega), hpool,
      fun j hj => hslots j (status_of_mem_queue h hj).2⟩

lemma stepsTo_efQueuePush (h : (db.view g).Pool g l q) (hroom : roomFor (g.n + 1))
    (data : List UInt8) (hs : (PoolOp.push data).Safe db) :
    StepsTo db (if (db.efQueuePush data).1 = .ok then .pushed data else .silent)
      (db.efQueuePush data).2 := by
  obtain ⟨g', l', q', hp, -⟩ := efQueuePush_pool h hroom hs data
  have hmsgs := hp.messages
  rw [← pending_eq hp.pool.toBound hp.pool.queue, ← pending_eq h.toBound h.queue] at hmsgs
  refine ⟨g', l', q', hp.pool, ?_⟩
  split_ifs at hmsgs ⊢ with hok
  · exact hmsgs
  · rw [List.append_nil] at hmsgs
    exact hmsgs

lemma stepsTo_efQueuePop (h : (db.view g).Pool g l q) (bufCap : ℕ) :
    StepsTo db ((PoolOp.pop bufCap).event (db.efQueuePop bufCap)) (db.efQueuePop bufCap).2.2 := by
  have hpend := pending_eq h.toBound h.queue
  unfold PoolOp.event
  rcases efQueuePop_pool h bufCap with ⟨hq, herr, hview⟩ | ⟨-, -, herr, hview⟩ |
      ⟨i, q', hq, hok, hmsg, hpool, hslots, -⟩
  · have hpool : ((db.efQueuePop bufCap).2.2.view g).Pool g l q := by rwa [hview]
    refine ⟨g, l, q, hpool, ?_⟩
    rw [herr, if_neg (by simp), if_pos rfl]
    refine ⟨?_, ?_⟩
    · rw [hpend, hq]
      rfl
    · rw [pending_eq hpool.toBound hpool.queue, hq]
      rfl
  · have hpool : ((db.efQueuePop bufCap).2.2.view g).Pool g l q := by rwa [hview]
    refine ⟨g, l, q, hpool, ?_⟩
    rw [herr, if_neg (by simp), if_neg (by simp)]
    show (db.efQueuePop bufCap).2.2.pending = db.pending
    rw [pending_eq hpool.toBound hpool.queue, hpend, hview]
  · refine ⟨g, i :: l, q', hpool, ?_⟩
    rw [if_pos hok]
    show db.pending = _ :: _
    rw [hpend, hmsg, hq, List.map_cons, pending_eq hpool.toBound hpool.queue]
    congr 1
    exact List.map_congr_left fun j hj => by rw [hslots j hj]

/-- **A step**: every safe call leads from a pool to a pool, and does to the pending messages what
its outcome says. -/
lemma PoolOp.run_pool (h : (db.view g).Pool g l q) (op : PoolOp) (ha : op.Allowed db)
    (hs : op.Safe db) :
    StepsTo db (op.event (op.run db)) (op.run db).2.2 := by
  have hmax : db.sb.maxSlots = g.n := h.maxSlots
  cases op with
  | allocSlot =>
      obtain ⟨l', halloc, -⟩ := efAllocSlotEx_allocated h true
      exact stepsTo_of_allocated h halloc
  | alloc =>
      have hroom : roomFor (db.sb.maxSlots + 1) := ha
      rw [hmax] at hroom
      obtain ⟨g', l', halloc, -⟩ := efAllocEx_allocated h hroom hs true
      exact stepsTo_of_allocated h halloc
  | freeSlot slotId => exact stepsTo_of_kept h (efFreeSlot_sealed h slotId).kept
  | grow newMaxSlots => exact stepsTo_efGrow h ha hs
  | setNextOffset slotId nextOffset =>
      exact stepsTo_of_kept h (efSetNextOffset_sealed h slotId nextOffset).kept
  | writePayload slotId data =>
      exact stepsTo_of_kept h (efWritePayload_sealed h data (writable_slots h ha)).kept
  | writeBlob slotId data =>
      obtain ⟨hw, hroom⟩ : writable db slotId ∧ (data.length ≤ 0xFFFFFFFF →
        roomFor (db.sb.maxSlots + overflowNeed (data.length - 40))) := ha
      rw [hmax] at hroom
      exact stepsTo_of_kept h (efWriteBlob_sealed h data (writable_slots h hw) hroom hs).kept
  | push data =>
      have hroom : roomFor (db.sb.maxSlots + 1) := ha
      rw [hmax] at hroom
      exact stepsTo_efQueuePush h hroom data hs
  | pop bufCap => exact stepsTo_efQueuePop h bufCap

/-! ### Runs -/

/-- The states of a database without a hash index, from a new one on, whatever the calls return and
whatever the system calls do, as long as no other party holds a lock. A handle that has lost its
mapping takes no further call. Every call is one that `C` lets through. -/
inductive PoolRun (C : Db → PoolOp → Prop) : Db → Prop
  | memory (buffer : Mem) (bufferSize maxSlots : ℕ) (env : Env) (hquiet : env.contention = [])
      (hfits : layoutFits maxSlots 0)
      (hok : (efOpenMemoryHash buffer bufferSize maxSlots 0 true env).1 = .ok) :
      PoolRun C (efOpenMemoryHash buffer bufferSize maxSlots 0 true env).2
  | file (bytes : Mem) (initialSlots : ℕ) (env : Env) (hquiet : env.contention = [])
      (hfits : layoutFits initialSlots 0) (hok : (efOpenExHash bytes 0 initialSlots 0 env).1 = .ok) :
      PoolRun C (efOpenExHash bytes 0 initialSlots 0 env).2
  | step (db : Db) (h : PoolRun C db) (hmapped : db.isMapped = true) (env : Env)
      (hquiet : env.contention = []) (op : PoolOp) (ha : op.Allowed db)
      (hc : C { db with env := env } op) : PoolRun C (op.run { db with env := env }).2.2

/-- The calls of a run are unconditional. -/
abbrev AnyCall (_ : Db) (_ : PoolOp) : Prop := True

/-- The calls of a run are safe. -/
abbrev SafeCall (db : Db) (op : PoolOp) : Prop := op.Safe db

/-- **Every state of a run of safe calls is a pool.** -/
lemma PoolRun.pool (h : PoolRun SafeCall db) : ∃ (g : Geometry) (l q : List ℕ),
    (db.view g).Pool g l q := by
  induction h with
  | memory buffer bufferSize maxSlots env hquiet hfits hok =>
      obtain ⟨g, -, hpool⟩ := (efOpenMemoryHash_built hfits hok).pool hquiet
      exact ⟨g, _, _, hpool⟩
  | file bytes initialSlots env hquiet hfits hok =>
      obtain ⟨g, -, hpool⟩ := (efOpenExHash_built hfits hok).pool hquiet
      exact ⟨g, _, _, hpool⟩
  | step db _ _ env hquiet op ha hc ih =>
      obtain ⟨g, l, q, hpool⟩ := ih
      obtain ⟨g', l', q', hpool', -⟩ := op.run_pool (pool_withEnv hpool hquiet) ha hc
      exact ⟨g', l', q', hpool'⟩

/-- The handle is mapped, and its free list is complete: the links from the head visit every `FREE`
slot exactly once and no other slot, and end at `0`; the free count is the number of `FREE`
slots. -/
def FreeListRight (db : Db) : Prop :=
  db.isMapped = true ∧ ∃ l : List ℕ,
    Linked db.efSlotAtOffset (fun i => (db.slot i).nextOffset) db.sb.freeListHead l 0 ∧
      l.Nodup ∧ (∀ i, i ∈ l ↔ i < db.sb.maxSlots ∧ (db.slot i).status = statusFree) ∧
      db.sb.freeCount = db.freeSlots.card

/-- **The free list** is complete in every state of a run of safe calls. -/
theorem PoolRun.free_list (h : PoolRun SafeCall db) (hmax : db.sb.maxSlots < 2 ^ 32) :
    db.FreeListRight := by
  obtain ⟨g, l, q, hpool⟩ := h.pool
  have hn : db.sb.maxSlots = g.n := hpool.maxSlots
  refine ⟨hpool.mapped, l, ?_, hpool.nodup, fun i => ?_, ?_⟩
  · refine hpool.linked.mono fun o i hi hid => ⟨(efSlotAtOffset_eq hpool.toBound o).trans hid, ?_⟩
    rw [slot_eq hpool.cap (hpool.lt hi)]
  · rw [hpool.mem_iff, hn]
    refine and_congr_right fun hi => ?_
    rw [slot_eq hpool.cap hi]
  · rw [card_freeSlots_of_pool hpool]
    exact hpool.count (by rw [← hn]; exact hmax)

/-- A new file without an index. -/
def newFile (initialSlots : ℕ) : Db := (efOpenExHash (fun _ => 0) 0 initialSlots 0 Env.quiet).2

/-- An environment in which a growth of a file fails. -/
def diskFull : Env := { Env.quiet with growFileErr := some ⟨.grow, by decide⟩ }

lemma poolRun_newFile (C : Db → PoolOp → Prop) : PoolRun C (newFile 1) :=
  .file _ 1 Env.quiet rfl (by decide) (by decide +kernel)

/-- A file that has grown from one slot to three: after a push, which takes two, the third is on the
list. -/
theorem PoolRun.free_list_after_push :
    let db := ((PoolOp.grow 3).run { newFile 1 with env := Env.quiet }).2.2
    ((PoolOp.push [7]).run { db with env := Env.quiet }).2.2.FreeListRight :=
  PoolRun.free_list (.step _ (.step _ (poolRun_newFile _) rfl Env.quiet rfl (.grow 3)
      (show roomFor _ by decide) fun _ _ => rfl) (by decide +kernel) Env.quiet rfl (.push [7])
    (show roomFor _ by decide +kernel) fun _ _ => rfl) (by decide +kernel)

/-- `ftruncate` fails on a file of one slot: `ef_grow` returns the error on a handle that is not
mapped any more, whose free list can no longer be followed. -/
theorem PoolRun.free_list_fails :
    ¬ ∀ db, PoolRun AnyCall db → db.sb.maxSlots < 2 ^ 32 → db.FreeListRight := by
  intro h
  have hrun : PoolRun AnyCall ((PoolOp.grow 2).run { newFile 1 with env := diskFull }).2.2 :=
    .step _ (poolRun_newFile _) rfl diskFull rfl (.grow 2) (show roomFor _ by decide) trivial
  have hmapped := (h _ hrun (by decide +kernel)).1
  have hlost : ((PoolOp.grow 2).run { newFile 1 with env := diskFull }).2.2.isMapped = false := by
    decide +kernel
  rw [hlost] at hmapped
  cases hmapped

end Db

end Endfields.Model
