import Endfields.Pool.Runs

/-!
# The queue is first in, first out

A database without a hash index, as long as no transaction is active and no other party holds a
lock: the pending messages behave as an abstract queue, whatever else is done to the slots.

* `Pooled db`: the image is well formed, with a complete free list and a queue that shares no slot
  with it.
* `FifoRun C q es db`: calls that `C` lets through lead from a database with the messages `q`
  pending to `db`, and `es` is what they showed of the queue.
* **Refinement** (`FifoRun.refines`): a run of safe calls on the database is a run of the abstract
  queue, so messages come out in the order in which they went in; a pop, `ef_queue_empty` and
  `ef_queue_drained` see nothing pending exactly if nothing is. `FifoRun.refines_fails` is a run
  with a push whose growth fails.
-/

namespace Endfields.Model

open Endfields.Lib

namespace Db

variable {g : Geometry} {db : Db} {l q : List ℕ} {env : Env}

/-- A database without a hash index whose free list and queue are well formed, on a handle that
nothing else interferes with. -/
def Pooled (db : Db) : Prop := ∃ (g : Geometry) (l q : List ℕ), (db.view g).Pool g l q

/-- Calls on a database, from a new one or from any well-formed one on, each of them let through by
`C`; a handle that has lost its mapping takes no further call. The first list are the messages that
were pending at the start, the second what the calls showed of the queue. -/
inductive FifoRun (C : Db → PoolOp → Prop) :
    List (List UInt8) → List (Fifo.Event (List UInt8)) → Db → Prop
  | memory (buffer : Mem) (bufferSize maxSlots : ℕ) (env : Env) (hquiet : env.contention = [])
      (hfits : layoutFits maxSlots 0)
      (hok : (efOpenMemoryHash buffer bufferSize maxSlots 0 true env).1 = .ok) :
      FifoRun C [] [] (efOpenMemoryHash buffer bufferSize maxSlots 0 true env).2
  | file (bytes : Mem) (initialSlots : ℕ) (env : Env) (hquiet : env.contention = [])
      (hfits : layoutFits initialSlots 0) (hok : (efOpenExHash bytes 0 initialSlots 0 env).1 = .ok) :
      FifoRun C [] [] (efOpenExHash bytes 0 initialSlots 0 env).2
  | image (db : Db) (h : db.Pooled) : FifoRun C db.pending [] db
  | step {q : List (List UInt8)} {es : List (Fifo.Event (List UInt8))} (db : Db) (h : FifoRun C q es db)
      (hmapped : db.isMapped = true) (env : Env) (hquiet : env.contention = []) (op : PoolOp)
      (ha : op.Allowed db) (hc : C { db with env := env } op) :
      FifoRun C q (es ++ [op.event (op.run { db with env := env })])
        (op.run { db with env := env }).2.2

variable {q₀ : List (List UInt8)} {es : List (Fifo.Event (List UInt8))}

/-- Nothing is pending in a new database. -/
lemma Built.fifo {maxSlots : ℕ} (h : Built maxSlots 0 env db) (hquiet : env.contention = []) :
    db.Pooled ∧ db.pending = [] := by
  obtain ⟨g, -, hpool⟩ := h.pool hquiet
  exact ⟨⟨g, _, _, hpool⟩, pending_eq hpool.toBound hpool.queue⟩

/-- What the system calls will do does not show in the messages. -/
lemma pending_withEnv (h : (db.view g).Pool g l q) (hquiet : env.contention = []) :
    ({ db with env := env } : Db).pending = db.pending := by
  have h' := pool_withEnv h hquiet
  rw [pending_eq h'.toBound h'.queue, pending_eq h.toBound h.queue]
  rfl

/-- The run invariant: the image stays well formed, and its messages are those of the abstract
queue. -/
lemma FifoRun.steps (h : FifoRun SafeCall q₀ es db) : db.Pooled ∧ Fifo.Steps q₀ es db.pending := by
  induction h with
  | memory buffer bufferSize maxSlots env hquiet hfits hok =>
      obtain ⟨hpooled, hnil⟩ := (efOpenMemoryHash_built hfits hok).fifo hquiet
      refine ⟨hpooled, ?_⟩
      rw [hnil]
      exact .nil []
  | file bytes initialSlots env hquiet hfits hok =>
      obtain ⟨hpooled, hnil⟩ := (efOpenExHash_built hfits hok).fifo hquiet
      refine ⟨hpooled, ?_⟩
      rw [hnil]
      exact .nil []
  | image db h => exact ⟨h, .nil _⟩
  | step db _ _ env hquiet op ha hc ih =>
      obtain ⟨⟨g, l, q, hpool⟩, hsteps⟩ := ih
      obtain ⟨g', l', q', hpool', hstep⟩ := op.run_pool (pool_withEnv hpool hquiet) ha hc
      rw [pending_withEnv hpool hquiet] at hstep
      exact ⟨⟨g', l', q', hpool'⟩, hsteps.snoc hstep⟩

/-- A pop with a buffer for every message finds the queue empty exactly if nothing is pending, and
fails in no other way. -/
lemma efQueuePop_empty_iff (h : (db.view g).Pool g l q) {bufCap : ℕ} (hbuf : 48 ≤ bufCap) :
    ((db.efQueuePop bufCap).1 = .queueEmpty ↔ db.pending = []) ∧
      ((db.efQueuePop bufCap).1 = .ok ↔ db.pending ≠ []) := by
  have hpend := pending_eq h.toBound h.queue
  rcases efQueuePop_pool h bufCap with ⟨rfl, herr, -⟩ | ⟨-, hsmall, -, -⟩ | ⟨i, q', rfl, hok, -, -, -⟩
  · rw [herr, hpend]
    simp
  · omega
  · rw [hok, hpend]
    simp

/-- The handle is mapped, and shows the pending messages of an abstract queue with the messages `q₀`
at the start and the history `es`: the messages come out in the order in which they went in, and a
pop, whatever the system does, `ef_queue_empty` and `ef_queue_drained` see nothing pending exactly
if nothing is. -/
structure FifoRight (q₀ : List (List UInt8)) (es : List (Fifo.Event (List UInt8))) (db : Db) :
    Prop where
  mapped : db.isMapped = true
  steps : Fifo.Steps q₀ es db.pending
  order : Fifo.outputs es ++ db.pending = q₀ ++ Fifo.inputs es
  pop : ∀ (env : Env) (bufCap : ℕ), env.contention = [] → 48 ≤ bufCap →
    ((({ db with env := env } : Db).efQueuePop bufCap).1 = .queueEmpty ↔ db.pending = []) ∧
      ((({ db with env := env } : Db).efQueuePop bufCap).1 = .ok ↔ db.pending ≠ [])
  empty : db.efQueueEmpty.1 = true ↔ db.pending = []
  drained : db.efQueueDrained.1 = true ↔ db.pending = []

/-- **Refinement.** A run of safe calls on the database is a run of the abstract queue. -/
theorem FifoRun.refines (h : FifoRun SafeCall q₀ es db) : FifoRight q₀ es db := by
  obtain ⟨⟨g, l, q, hpool⟩, hsteps⟩ := h.steps
  have hnil : q = [] ↔ db.pending = [] := by
    rw [pending_eq hpool.toBound hpool.queue, List.map_eq_nil_iff]
  refine ⟨hpool.mapped, hsteps, hsteps.fifo, fun env bufCap hquiet hbuf => ?_, ?_, ?_⟩
  · rw [← pending_withEnv hpool hquiet]
    exact efQueuePop_empty_iff (pool_withEnv hpool hquiet) hbuf
  · exact (efQueueEmpty_iff hpool).trans hnil
  · exact (efQueueDrained_iff hpool).trans hnil

/-- A file of two slots, with the environment for the calls behind the open. -/
lemma fifoRun_newFile (C : Db → PoolOp → Prop) : FifoRun C [] [] (newFile 2) :=
  .file _ 2 Env.quiet rfl (by decide) (by decide +kernel)

/-- A first message in a file of two slots, which takes both. -/
def pushedOne : Db := ((PoolOp.push [7]).run { newFile 2 with env := Env.quiet }).2.2

/-- The second push makes the file grow. -/
theorem FifoRun.refines_two_pushes :
    let op := PoolOp.push [7]
    let op' := PoolOp.push [8, 9]
    let r := op'.run { pushedOne with env := Env.quiet }
    FifoRight [] ([] ++ [op.event (op.run { newFile 2 with env :=
        Env.quiet })] ++ [op'.event r]) r.2.2 :=
  FifoRun.refines (.step pushedOne
    (.step (newFile 2) (fifoRun_newFile _) rfl Env.quiet rfl (.push [7])
      (show roomFor _ by decide +kernel) fun _ _ => rfl)
    (by decide +kernel) Env.quiet rfl (.push [8, 9]) (show roomFor _ by decide +kernel) fun _ _ => rfl)

/-- The second push finds no slot, and `ftruncate` fails: it returns the error on a handle that is
not mapped any more, and the first message cannot be popped. -/
theorem FifoRun.refines_fails :
    ¬ ∀ q₀ es db, FifoRun AnyCall q₀ es db → FifoRight q₀ es db := by
  intro h
  have hrun := FifoRun.step (C := AnyCall) pushedOne
    (.step (newFile 2) (fifoRun_newFile _) rfl Env.quiet rfl (.push [7])
      (show roomFor _ by decide +kernel) trivial)
    (by decide +kernel) diskFull rfl (.push [8, 9]) (show roomFor _ by decide +kernel) trivial
  have hmapped := (h _ _ _ hrun).mapped
  have hlost : ((PoolOp.push [8, 9]).run { pushedOne with env := diskFull }).2.2.isMapped = false := by
    decide +kernel
  rw [hlost] at hmapped
  cases hmapped

end Db

end Endfields.Model
