import Endfields.Spec.Put

/-!
# Aborting a transaction that allocates and indexes slots

The inverse of an index insertion removes an entry of the slot, and the removal may shrink the index
and move the slot region, while the records still to be undone hold offsets of the old layout.

* `Db.PutOp`, `Db.putStep`: the calls of the transaction, each in an environment of its own.
* `Db.takenIds`: the ids of the slots that the run allocates.
* **Main result** (`abort_put_keeps_slots`): when each insertion finds a handle that its removal
  would not shrink, the abort leaves every slot that was not allocated as it was at the begin, and
  every allocated slot `FREE`.
* **Counterexample** (`abort_put_frees_other_slot`).
-/

namespace Endfields.Model

open Endfields.Lib

namespace Db

/-- The calls of the transaction. -/
inductive PutOp
  | alloc
  | put (key : List UInt8) (slotId : ℕ)

/-- The handle a call leaves. -/
def PutOp.apply (db : Db) : PutOp → Db
  | alloc => db.efAllocSlot.2.2
  | put key slotId => (db.efIndexPut key slotId).2

/-- The slot a call allocates. -/
def PutOp.taken (db : Db) : PutOp → List ℕ
  | alloc => if db.efAllocSlot.1 = .ok then [db.efAllocSlot.2.1] else []
  | put _ _ => []

/-- A call in an environment of its own. -/
def putStep (a : Env × PutOp) (db : Db) : Db := a.2.apply { db with env := a.1 }

/-- The slots that a run allocates. -/
def takenIds : List (Env × PutOp) → Db → List ℕ
  | [], _ => []
  | a :: ops, db => a.2.taken { db with env := a.1 } ++ takenIds ops (putStep a db)

/-- The records of the call fit the log, and the removal of a key that it inserts does not shrink
the index: on a file, with up to 16 buckets, or with an entry for every eight buckets already. -/
def putGood (a : Env × PutOp) (db : Db) : Prop :=
  match a.2 with
  | .alloc => db.logRoom 2
  | .put _ _ => db.logRoom 1 ∧ db.steady 0 ∧ db.hashEntryCount + 1 < u32

instance (a : Env × PutOp) (db : Db) : Decidable (putGood a db) := by
  unfold putGood
  cases a.2 <;> infer_instance

/-! ### One call and its records -/

variable {g : Geometry} {db x : Db}

/-- The handle `x` is `db` again, as far as the slots outside `ids` go; those of `ids` are
`FREE`. -/
structure Back (g : Geometry) (ids : List ℕ) (x db : Db) : Prop where
  ok : (x.view g).Ok g
  quiet : x.env.contention = []
  backend : x.backend = db.backend
  lock : x.sb.indexWriteLock = db.sb.indexWriteLock
  count : db.hashEntryCount ≤ x.hashEntryCount
  freed : ∀ i ∈ ids, ((x.view g).slots i).status = statusFree
  kept : ∀ i, i ∉ ids → (x.view g).slots i = (db.view g).slots i

/-- The environment is no part of it. -/
lemma Back.of_env {ids : List ℕ} {env : Env} (h : Back g ids x { db with env := env }) :
    Back g ids x db := ⟨h.ok, h.quiet, h.backend, h.lock, h.count, h.freed, h.kept⟩

/-- A call that changed nothing of it. -/
lemma Back.of_still {ids : List ℕ} {db' : Db} (h : Back g ids x db')
    (hst : View.Still (db.view g) (db'.view g)) (hcount : db'.hashEntryCount = db.hashEntryCount) :
    Back g ids x db where
  ok := h.ok
  quiet := h.quiet
  backend := h.backend.trans (congrArg Core.backend hst.core)
  lock := h.lock.trans (congrArg Superblock.indexWriteLock hst.sb)
  count := hcount ▸ h.count
  freed := h.freed
  kept i hi := (h.kept i hi).trans (congrFun hst.slots i)

/-- **An allocation** and its two records. -/
lemma back_alloc {us : List UndoRec} (h : Logging g db us) (hroom : db.logRoom 2) :
    ∃ us', Logging g db.efAllocSlot.2.2 (us ++ us') ∧
      ∀ ids x, Back g ids x db.efAllocSlot.2.2 →
        ∃ y, Undone (UndoesTo g) us' x y ∧ Back g (PutOp.taken db .alloc ++ ids) y db := by
  have hframe := frame_efAllocSlotEx db true
  have hspec := efAllocSlotEx_holds h.ok true h.holds
  unfold PutOp.taken efAllocSlot
  generalize db.efAllocSlotEx true = r at hframe hspec ⊢
  obtain ⟨e, i, db'⟩ := r
  have hact : db'.txnActive = true := hframe.txnActive.trans h.active
  rcases hspec with ⟨herr, hview, -⟩ | ⟨i', hhead, -, hok, hid, -, hin⟩
  · have hst : View.Still (db.view g) (db'.view g) := by
      rw [show db'.view g = (db.view g).tick from hview]
      exact View.Still.tick _
    refine ⟨[], ?_, fun ids x hx => ⟨x, rfl, ?_⟩⟩
    · rw [List.append_nil]
      exact h.of_still hst
    · rw [if_neg herr]
      exact hx.of_still hst hframe.hashEntryCount
  · simp only at hok hid
    subst hok hid
    obtain ⟨seg, hview, hseg⟩ := hin h.active (h.room.mp hroom)
    have hi : i < g.n := View.freeHead_lt hhead
    generalize ((db.view g).allocated true i).headerCrc = crc at hseg
    simp only at hview
    have hslots : ∀ j, j ≠ i → (db'.view g).slots j = (db.view g).slots j := by
      intro j hj
      rw [hview]
      exact Function.update_of_ne hj _ _
    refine ⟨allocRecs g i crc, ⟨?_, hact, by rw [hview]; exact hseg⟩, fun ids x hx => ?_⟩
    · rw [hview, View.ok_setSeg]
      exact (View.ok_tick.mpr h.ok).congr rfl rfl rfl
    obtain ⟨y, hundone, hy, hfy⟩ := undone_slotRecs [.alloc i crc, .freeCount (-1)]
      (by simpa [SlotRec.Valid] using hi) hx.ok
    have hslotsy : ∀ j, j ≠ i → (y.view g).slots j = (x.view g).slots j := by
      intro j hj
      rw [hy]
      exact Function.update_of_ne hj _ _
    refine ⟨y, hundone, ?_⟩
    rw [if_pos rfl]
    refine ⟨?_, ?_, ?_, ?_, ?_, ?_, ?_⟩
    · rw [hy]
      exact View.foldr_undo_ok _ hx.ok
    · have hc : (y.view g).core = (x.view g).core := by rw [hy, View.foldr_undo_core]
      exact (congrArg Core.contention hc).trans hx.quiet
    · exact hfy.backend.trans (hx.backend.trans hframe.backend)
    · have hl : y.sb.indexWriteLock = x.sb.indexWriteLock := by
        rw [sb_eq g, hy]
        rfl
      have hl' : db'.sb.indexWriteLock = db.sb.indexWriteLock := by
        rw [sb_eq g, hview]
        rfl
      exact hl.trans (hx.lock.trans hl')
    · rw [hfy.hashEntryCount, ← hframe.hashEntryCount]
      exact hx.count
    · intro j hj
      by_cases hji : j = i
      · subst hji
        rw [hy]
        simp [View.undo]
      · rw [hslotsy j hji]
        exact hx.freed j ((List.mem_cons.mp hj).resolve_left hji)
    · intro j hj
      have hji : j ≠ i := fun heq => hj (by simp [heq])
      have hjids : j ∉ ids := fun hmem => hj (by simp [hmem])
      rw [hslotsy j hji, hx.kept j hjids, hslots j hji]

/-- **An insertion** and its record, on a handle that the removal of one more entry than it has does
not shrink. -/
lemma back_put {us : List UndoRec} (h : Logging g db us) (hroom : db.logRoom 1)
    (hsteady : db.steady 0) (hcount : db.hashEntryCount + 1 < u32) (key : List UInt8) (s : ℕ) :
    ∃ us', Logging g (db.efIndexPut key s).2 (us ++ us') ∧
      ∀ ids x, Back g ids x (db.efIndexPut key s).2 →
        ∃ y, Undone (UndoesTo g) us' x y ∧ Back g ids y db := by
  have hput := efIndexPut_holds h.ok h.active h.holds (h.room.mp hroom) key s
  generalize efKeyHash (cString key) = k at hput
  generalize (db.efIndexPut key s).2 = db' at hput ⊢
  cases hput with
  | same hst hc =>
      refine ⟨[], ?_, fun ids x hx => ⟨x, rfl, hx.of_still hst hc⟩⟩
      rw [List.append_nil]
      exact h.of_still hst
  | added hs hfree w seg hst hview hseg hc =>
      rw [Nat.mod_eq_of_lt hcount] at hc
      have hactive : db'.txnActive = true := by
        have hcore : db'.core = w.core := congrArg View.core hview
        rw [hst.core] at hcore
        exact (congrArg Core.txnActive hcore).trans h.active
      have hok' : (db'.view g).Ok g := by
        rw [hview, View.ok_setSeg]
        exact hst.ok h.ok
      refine ⟨[putRec g k s], ⟨hok', hactive, by rw [hview]; exact hseg⟩, fun ids x hx => ?_⟩
      have hsb : db'.sb = db.sb := (congrArg View.sb hview).trans hst.sb
      have hback : db'.backend = db.backend := by
        have hcore : db'.core = w.core := congrArg View.core hview
        rw [hst.core] at hcore
        exact congrArg Core.backend hcore
      have hxcount := hx.count
      have hcap : x.hashCapacity = db.hashCapacity := hx.ok.cap.trans h.ok.cap.symm
      -- the handle has an entry more than it had before the insertion
      have hsteady' : x.steady 1 :=
        hsteady.congr (hx.backend.trans hback) hcap (by omega)
      have hfree' : (x.view g).lockFree := by
        intro _
        have hl : x.sb.indexWriteLock = db.sb.indexWriteLock := by rw [hx.lock, hsb]
        refine hl.trans (hfree ?_)
        exact h.ok.schema.ge
      obtain ⟨y, hundo, hy, hycount⟩ := undoesTo_putRec hx.ok hx.quiet hfree' hsteady' k hs
      have hycore : y.core = x.core := congrArg View.core hy
      have hysb : y.sb = x.sb := congrArg View.sb hy
      refine ⟨y, undone_singleton.mpr hundo, ?_, ?_, ?_, ?_, by omega, ?_, ?_⟩
      · rw [hy]
        exact hx.ok
      · exact (congrArg Core.contention hycore).trans hx.quiet
      · exact (congrArg Core.backend hycore).trans (hx.backend.trans hback)
      · rw [hysb, hx.lock, hsb]
      · rw [hy]
        exact hx.freed
      · intro i hi
        rw [hy, hx.kept i hi, hview]
        exact congrFun hst.slots i

/-! ### Runs -/

/-- **One call.** -/
lemma back_step {us : List UndoRec} (a : Env × PutOp) (h : Logging g db us) (hgood : putGood a db) :
    ∃ us', Logging g (putStep a db) (us ++ us') ∧
      ∀ ids x, Back g ids x (putStep a db) →
        ∃ y, Undone (UndoesTo g) us' x y ∧
          Back g (a.2.taken { db with env := a.1 } ++ ids) y db := by
  obtain ⟨env, op⟩ := a
  have h' := h.withEnv env
  cases op with
  | alloc =>
      obtain ⟨us', hlog, hback⟩ := back_alloc h' hgood
      refine ⟨us', hlog, fun ids x hx => ?_⟩
      obtain ⟨y, hundone, hy⟩ := hback ids x hx
      exact ⟨y, hundone, hy.of_env⟩
  | put key s =>
      obtain ⟨hroom, hsteady, hcount⟩ := hgood
      obtain ⟨us', hlog, hback⟩ := back_put h' hroom hsteady hcount key s
      refine ⟨us', hlog, fun ids x hx => ?_⟩
      obtain ⟨y, hundone, hy⟩ := hback ids x hx
      exact ⟨y, hundone, hy.of_env⟩

/-- **A run**, by induction over its calls: its records can be undone, and lead back. -/
lemma back_run (ops : List (Env × PutOp)) {us : List UndoRec} (h : Logging g db us)
    (hgood : GoodRun putStep putGood ops db) :
    ∃ us', Logging g (runAll putStep ops db) (us ++ us') ∧
      ∀ x, Back g [] x (runAll putStep ops db) →
        ∃ y, Undone (UndoesTo g) us' x y ∧ Back g (takenIds ops db) y db := by
  induction ops generalizing db us with
  | nil => exact ⟨[], by rw [List.append_nil]; exact h, fun x hx => ⟨x, rfl, hx⟩⟩
  | cons a ops ih =>
      obtain ⟨us₁, hlog₁, hback₁⟩ := back_step a h hgood.1
      obtain ⟨us₂, hlog₂, hback₂⟩ := ih hlog₁ hgood.2
      refine ⟨us₁ ++ us₂, by rw [← List.append_assoc]; exact hlog₂, fun x hx => ?_⟩
      obtain ⟨m, hm, hmback⟩ := hback₂ x hx
      obtain ⟨y, hy, hyback⟩ := hback₁ _ m hmback
      exact ⟨y, undone_append.mpr ⟨m, hm, hy⟩, hyback⟩

/-! ### The abort -/

/-- The replay starts from the handle of the run. -/
lemma back_aborting (h : (db.view g).Ok g) (hq : db.env.contention = []) :
    Back g [] db.aborting db := by
  have hview := view_aborting h
  have hcore : db.aborting.core = db.core := congrArg View.core hview
  refine ⟨ok_aborting h, ?_, ?_, ?_, ?_, by simp, fun i _ => ?_⟩
  · exact (congrArg Core.contention hcore).trans hq
  · exact congrArg Core.backend hcore
  · have hsb : db.aborting.sb = db.sb.setTxnState txnStateAborting := congrArg View.sb hview
    rw [hsb]
    rfl
  · exact (hashEntryCount_aborting db).ge
  · exact congrFun (congrArg View.slots hview) i

/-- **What a transaction of allocations and insertions leaves when it is aborted.** For every handle
with the layout an open gives it, and every run whose calls fit the log and whose insertions find a
handle that their removal does not shrink: with the index lock to be had, the abort succeeds, every
slot that the run did not allocate is the slot it was at the begin, and every slot that it allocated
is `FREE`. -/
theorem abort_put_keeps_slots (hl : db.Layout) (hbegin : db.efTxnBegin.1 = .ok)
    (ops : List (Env × PutOp)) (hgood : GoodRun putStep putGood ops db.efTxnBegin.2) (env : Env)
    (hq : env.contention = []) :
    let run := runAll putStep ops db.efTxnBegin.2
    let ids := takenIds ops db.efTxnBegin.2
    let aborted := ({ run with env := env } : Db).efTxnAbort
    aborted.1 = .ok ∧ ∀ i, i < db.sb.maxSlots →
      (i ∉ ids → aborted.2.slot i = db.slot i) ∧
        (i ∈ ids → (aborted.2.slot i).status = statusFree) := by
  obtain ⟨us, hlog, hback⟩ := back_run ops (logging_of_begin hl.ok hbegin) hgood
  have hlog' := hlog.withEnv env
  obtain ⟨y, hundone, hy⟩ := hback _ (back_aborting hlog'.ok hq).of_env
  simp only
  rw [efTxnAbort_of_undone hlog'.ok hlog'.active hlog'.holds hundone]
  refine ⟨rfl, fun i hi => ?_⟩
  rw [slot_txnEnd hy.ok hi, slot_eq hl.ok.cap hi]
  refine ⟨fun hni => ?_, hy.freed i⟩
  rw [hy.kept i hni]
  exact slots_of_begin hl.ok hbegin i

/-- A transaction that allocates slot 0 and indexes it. -/
def putOnce : List (Env × PutOp) := [(Env.quiet, .alloc), (Env.quiet, .put [97] 0)]

/-- With 16 buckets the abort frees slot 0 and leaves slot 1. -/
theorem abort_put_keeps_slots_of_two :
    let db := newMemory 2 16
    let aborted := ({ runAll putStep putOnce db.efTxnBegin.2 with env := Env.quiet } : Db).efTxnAbort
    takenIds putOnce db.efTxnBegin.2 = [0] ∧ (aborted.2.slot 0).status = statusFree ∧
      aborted.2.slot 1 = db.slot 1 := by
  have hids : takenIds putOnce (newMemory 2 16).efTxnBegin.2 = [0] := by decide +kernel
  have hgood : GoodRun putStep putGood putOnce (newMemory 2 16).efTxnBegin.2 :=
    ⟨by decide +kernel, by decide +kernel, trivial⟩
  obtain ⟨-, hslots⟩ := abort_put_keeps_slots (by decide +kernel : (newMemory 2 16).Layout)
    (by decide +kernel) putOnce hgood Env.quiet rfl
  exact ⟨hids, (hslots 0 (by decide +kernel)).2 (by rw [hids]; decide),
    (hslots 1 (by decide +kernel)).1 (by rw [hids]; decide)⟩

/-- With 32 buckets and no other entry the inverse of the insertion shrinks the index to 16 buckets
and moves the slots down by 256 bytes, so the offset of slot 0 in the record of the allocation is
that of slot 4: after the abort slot 0 is still in use, and slot 4, in use at the begin, is
`FREE`. -/
theorem abort_put_frees_other_slot :
    let db := ((newMemory 5 32).efSetStatus 4 statusUsed).2
    let run := runAll putStep putOnce db.efTxnBegin.2
    let aborted := run.efTxnAbort
    db.Layout ∧ db.backend = .memory ∧ db.efTxnBegin.1 = .ok ∧
      (db.efTxnBegin.2.efIndexFindEntryUnlocked (efKeyHash (cString [97]))).toOption.isNone ∧
      takenIds putOnce db.efTxnBegin.2 = [0] ∧ aborted.1 = .ok ∧
      (db.slot 4).status = statusUsed ∧ (aborted.2.slot 4).status = statusFree ∧
      (aborted.2.slot 0).status = statusUsed := by
  decide +kernel

end Db

end Endfields.Model
