import Endfields.Abort.Alloc

/-!
# Aborting a transaction of allocations and releases

The record of an allocation puts the slot back at the head of the free list. The record of a release
gives the slot its status and link back, but not the list its head: the list then starts with a slot
in use.

* `PoolOp`: the calls of such a transaction; `PoolOp.keepsSlots`: the call does not release a slot.
* **Main result** (`abort_restores_freeList`): in every transaction in which no call releases a
  slot, the abort leaves a free list that visits exactly the `FREE` slots, and later allocations
  return slots that were `FREE` at the begin.
-/

namespace Endfields.Model

open Endfields.Lib

/-- The calls of a transaction on the pool. -/
inductive PoolOp
  | alloc
  | free (slotId : ℕ)
  deriving DecidableEq, Repr

namespace PoolOp

/-- The handle after the call. -/
def run : PoolOp → Db → Db
  | alloc, db => db.efAllocSlot.2.2
  | free slotId, db => (db.efFreeSlot slotId).2

/-- The records of the call fit the log. -/
def fits : PoolOp → Db → Prop
  | alloc, db => db.efAllocSlot.1 = .ok → db.logRoom 2
  | free slotId, db => (db.efFreeSlot slotId).1 = .ok → db.logRoom 2

/-- The call gives no slot back to the pool. -/
def keepsSlots : PoolOp → Db → Prop
  | alloc, _ => True
  | free slotId, db => ¬ db.releases slotId

instance : (op : PoolOp) → (db : Db) → Decidable (op.fits db)
  | alloc, _ => inferInstanceAs (Decidable (_ → _))
  | free _, _ => inferInstanceAs (Decidable (_ → _))

instance : (op : PoolOp) → (db : Db) → Decidable (op.keepsSlots db)
  | alloc, _ => inferInstanceAs (Decidable True)
  | free _, _ => inferInstanceAs (Decidable (¬ _))

end PoolOp

/-! ### The pool on the view -/

/-- Two views have the same pool: the head of the list, the statuses, and the links of the `FREE`
slots. -/
structure View.SamePool (g : Geometry) (v w : View) : Prop where
  head : v.sb.freeListHead = w.sb.freeListHead
  status : ∀ i, i < g.n → (v.slots i).status = (w.slots i).status
  next : ∀ i, i < g.n → (w.slots i).status = statusFree →
    (v.slots i).nextOffset = (w.slots i).nextOffset

namespace View

variable {g : Geometry} {v w : View} {i : ℕ}

lemma SamePool.refl (g : Geometry) (v : View) : SamePool g v v :=
  ⟨rfl, fun _ _ => rfl, fun _ _ _ => rfl⟩

lemma SamePool.trans {u : View} (h : SamePool g v w) (h' : SamePool g w u) : SamePool g v u where
  head := h.head.trans h'.head
  status i hi := (h.status i hi).trans (h'.status i hi)
  next i hi hs := (h.next i hi ((h'.status i hi).trans hs)).trans (h'.next i hi hs)

lemma SamePool.freeListIs {l : List ℕ} (h : SamePool g v w) (hl : w.FreeListIs g l) :
    v.FreeListIs g l := hl.congr h.head h.status h.next hl.lt

/-- The records of an allocation lead back to the same pool. -/
lemma samePool_reverses_popSlot {l : List ℕ} (crc : ℕ) (hl : v.FreeListIs g (i :: l))
    (hhead : v.freeHead g = some i) :
    Reverses (undo g) (SamePool g) v [.alloc i crc, .freeCount (-1)] (v.popSlot true i) := by
  intro x hx
  have hi := freeHead_lt hhead
  have hfree : (v.slots i).status = statusFree := (hl.mem_iff i hi).mp List.mem_cons_self
  refine ⟨(freeHead_ptr hhead).symm, ?_, ?_⟩
  · intro j hj
    have hxj := hx.status j hj
    rw [popSlot_status] at hxj
    simp only [List.foldr_cons, List.foldr_nil, undo, setSlot_slots, Function.update_apply,
      setSb_slots]
    by_cases hji : j = i
    · rw [if_pos hji, hji, hfree]
    · rw [if_neg hji] at hxj ⊢
      exact hxj
  · intro j hj hs
    have hxj := hx.next j hj
    rw [popSlot_status, popSlot_next] at hxj
    simp only [List.foldr_cons, List.foldr_nil, undo, setSlot_slots, Function.update_apply,
      setSb_slots]
    by_cases hji : j = i
    · rw [if_pos hji, hji]
      exact hx.head
    · rw [if_neg hji, if_neg hji] at hxj
      rw [if_neg hji]
      exact hxj hs

/-- Clearing the link of a slot in use does not touch the pool. -/
lemma samePool_setSlot {s : Slot} (hstatus : s.status = (v.slots i).status)
    (hused : (v.slots i).status ≠ statusFree) : SamePool g (v.setSlot i s) v where
  head := rfl
  status j _ := by
    rw [setSlot_slots, Function.update_apply]
    split_ifs with hji
    · rw [hji, hstatus]
    · rfl
  next j _ hs := by
    rw [setSlot_slots, Function.update_apply]
    split_ifs with hji
    · exact absurd (hji ▸ hs) hused
    · rfl

end View

/-! ### Steps and runs -/

namespace Db

variable {g : Geometry} {db : Db}

/-- What holds in every state of the transaction. -/
structure PoolInv (g : Geometry) (db : Db) : Prop where
  ok : (db.view g).Ok g
  active : db.txnActive = true
  list : ∃ l, (db.view g).FreeListIs g l

/-- A call that releases no slot reverses with the records it leaves. -/
lemma poolOp_reverses (op : PoolOp) (rs : List SlotRec) (hinv : db.PoolInv g)
    (hlog : (db.view g).LogIs g rs) (hgood : op.fits db ∧ op.keepsSlots db) :
    (op.run db).PoolInv g ∧ ∃ rs', ((op.run db).view g).LogIs g (rs ++ rs') ∧
      Reverses (View.undo g) (View.SamePool g) (db.view g) rs' ((op.run db).view g) := by
  obtain ⟨h, hact, l, hl⟩ := hinv
  -- a call that changes nothing of the pool and leaves no record
  have hsame : ∀ db' : Db, (db'.view g).Ok g → db'.txnActive = true →
      (db'.view g).seg = (db.view g).seg → View.SamePool g (db'.view g) (db.view g) →
      db'.PoolInv g ∧ ∃ rs', (db'.view g).LogIs g (rs ++ rs') ∧
        Reverses (View.undo g) (View.SamePool g) (db.view g) rs' (db'.view g) := by
    intro db' hok hact' hseg hpool
    refine ⟨⟨hok, hact', l, hpool.freeListIs hl⟩, [], ?_, ?_⟩
    · rw [List.append_nil]
      exact hlog.congr hseg
    · intro x hx
      exact hx.trans hpool
  cases op with
  | alloc =>
      rcases efAllocSlotEx_spec h true hlog with
        ⟨-, hview, -⟩ | ⟨i, hhead, -, hok, -, -, hin⟩
      · refine hsame _ (by rw [PoolOp.run, efAllocSlot, hview, View.ok_tick]; exact h) ?_ ?_ ?_
        · exact (congrArg (fun v => v.core.txnActive) hview).trans hact
        · rw [PoolOp.run, efAllocSlot, hview]
          rfl
        · rw [PoolOp.run, efAllocSlot, hview]
          exact ⟨rfl, fun _ _ => rfl, fun _ _ _ => rfl⟩
      · obtain ⟨l', rfl⟩ := hl.freeHead hhead
        have hroom := (logRoom_iff h hlog 2).mp (hgood.1 hok)
        obtain ⟨seg, hview, hlog'⟩ := hin hact hroom
        have hpop : ((db.view g).tick.popSlot true i).FreeListIs g l' :=
          View.FreeListIs.popSlot ⟨hl.chain, hl.nodup, hl.mem_iff⟩
        refine ⟨⟨?_, ?_, l', ?_⟩, _, hlog', ?_⟩
        · rw [PoolOp.run, efAllocSlot, hview, View.ok_setSeg]
          exact (View.ok_tick.mpr h).congr rfl rfl rfl
        · exact (congrArg (fun v => v.core.txnActive) hview).trans hact
        · rw [PoolOp.run, efAllocSlot, hview]
          exact ⟨hpop.chain, hpop.nodup, hpop.mem_iff⟩
        · rw [PoolOp.run, efAllocSlot, hview]
          intro x hx
          exact View.samePool_reverses_popSlot _ hl hhead x ⟨hx.head, hx.status, hx.next⟩
  | free i =>
      obtain ⟨-, hview | ⟨hi, hused, hview⟩⟩ := efFreeSlot_of_not_releases h.toBound hgood.2
      · refine hsame _ (by rw [PoolOp.run, hview]; exact h) ?_ ?_ ?_
        · exact (congrArg (fun v => v.core.txnActive) hview).trans hact
        · exact congrArg View.seg hview
        · rw [PoolOp.run, hview]
          exact View.SamePool.refl g (db.view g)
      · refine hsame _ (by rw [PoolOp.run, hview, View.ok_setSlot]; exact h) ?_ ?_ ?_
        · exact (congrArg (fun v => v.core.txnActive) hview).trans hact
        · rw [PoolOp.run, hview]
          rfl
        · rw [PoolOp.run, hview]
          exact View.samePool_setSlot (Slot.sealed_status _ _ _) (by rw [hused]; decide)

/-- Allocations outside a transaction return slots of the free list. -/
lemma allocRun_mem (n : ℕ) {l : List ℕ} (h : (db.view g).Ok g) (hout : db.txnActive = false)
    (hlog : (db.view g).LogIs g []) (hl : (db.view g).FreeListIs g l) :
    ∀ i ∈ (allocRun n db).1, i ∈ l := by
  induction n generalizing db l with
  | zero =>
      intro i hi
      exact absurd hi List.not_mem_nil
  | succ n ih =>
      intro i hi
      unfold allocRun at hi
      rcases efAllocSlotEx_spec h true hlog with
        ⟨herr, hview, -⟩ | ⟨j, hhead, -, hok, hid, hpop, -⟩
      · rcases hr : db.efAllocSlot with ⟨e, k, db'⟩
        have hr' : db.efAllocSlotEx true = (e, k, db') := hr
        rw [hr] at hi
        rw [hr'] at herr hview
        simp only at herr hview
        have hmem : i ∈ (allocRun n db').1 := by
          cases e <;> first | exact absurd rfl herr | exact hi
        refine ih (by rw [hview, View.ok_tick]; exact h) ?_ (by rw [hview]; exact hlog.congr rfl)
          (by rw [hview]; exact ⟨hl.chain, hl.nodup, hl.mem_iff⟩) i hmem
        exact (congrArg (fun v => v.core.txnActive) hview).trans hout
      · obtain ⟨l', rfl⟩ := hl.freeHead hhead
        rcases hr : db.efAllocSlot with ⟨e, k, db'⟩
        have hr' : db.efAllocSlotEx true = (e, k, db') := hr
        rw [hr] at hi
        rw [hr'] at hok hid hpop
        simp only at hok hid hpop
        subst hok hid
        have hview := hpop hout
        rcases List.mem_cons.mp hi with rfl | hi
        · exact List.mem_cons_self
        · have hpop' : ((db.view g).tick.popSlot true k).FreeListIs g l' :=
            View.FreeListIs.popSlot ⟨hl.chain, hl.nodup, hl.mem_iff⟩
          refine List.mem_cons_of_mem k (ih ?_ ?_ ?_ (by rw [hview]; exact hpop') i hi)
          · rw [hview]
            exact (View.ok_tick.mpr h).congr rfl rfl rfl
          · exact (congrArg (fun v => v.core.txnActive) hview).trans hout
          · rw [hview]
            exact hlog.congr rfl

/-! ### The abort -/

/-- **Without a release the abort restores the pool.** For every handle with the layout an open
gives it and a free list that holds exactly the `FREE` slots, and every transaction whose records
fit the log and in which no call releases a slot: the abort leaves a free list that visits exactly
the `FREE` slots, each once, and no later allocation returns a slot that was in use at the begin. -/
theorem abort_restores_freeList (hl : db.Layout) (hfree : db.FreeListExact)
    (hbegin : db.efTxnBegin.1 = .ok) (ops : List PoolOp)
    (hfit : GoodRun PoolOp.run PoolOp.fits ops db.efTxnBegin.2)
    (hkeep : GoodRun PoolOp.run PoolOp.keepsSlots ops db.efTxnBegin.2) :
    let aborted := (runAll PoolOp.run ops db.efTxnBegin.2).efTxnAbort
    aborted.1 = .ok ∧ aborted.2.FreeListExact ∧
      ∀ n, ∀ i ∈ (allocRun n aborted.2).1, (db.slot i).status = statusFree := by
  obtain ⟨g, h⟩ : ∃ g, (db.view g).Ok g := ⟨_, hl.ok⟩
  obtain ⟨l, hlist⟩ := (freeListExact_iff h.toBound).mp hfree
  obtain ⟨-, seg, hseg, hview₁⟩ := efTxnBegin_of_ok h hbegin
  set db₁ := db.efTxnBegin.2
  have hlist₁ : (db₁.view g).FreeListIs g l := by
    rw [hview₁]
    exact ⟨hlist.chain, hlist.nodup, hlist.mem_iff⟩
  have hinv₁ : db₁.PoolInv g := by
    refine ⟨?_, congrArg (fun v => v.core.txnActive) hview₁, l, hlist₁⟩
    rw [hview₁]
    exact (View.ok_tick.mpr h).begun
  have hlog₁ : (db₁.view g).LogIs g [] := View.LogIs.nil (by rw [hview₁]; exact hseg)
  obtain ⟨db₃, y, seg₃, habort, hoky, hback, hseg₃, hview₃⟩ := abort_of_run PoolOp.run _
    (PoolInv g) (View.SamePool g) (View.SamePool.refl g) (fun _ hs => ⟨hs.ok, hs.active⟩)
    (fun op _ rs hs hlog hgood => poolOp_reverses op rs hs hlog hgood) hinv₁ hlog₁ ops
    (hfit.and hkeep)
  have hok₃ : (db₃.view g).Ok g := by
    rw [hview₃]
    exact hoky.ended
  have hlist₃ : (db₃.view g).FreeListIs g l := by
    have hy := hback.freeListIs hlist₁
    rw [hview₃]
    exact ⟨hy.chain, hy.nodup, hy.mem_iff⟩
  simp only [habort]
  refine ⟨trivial, (freeListExact_iff hok₃.toBound).mpr ⟨l, hlist₃⟩, ?_⟩
  intro n i hi
  have hmem := allocRun_mem n hok₃ (congrArg (fun v => v.core.txnActive) hview₃)
    (View.LogIs.nil (by rw [hview₃]; exact hseg₃)) hlist₃ i hi
  have hi := hlist.lt i hmem
  rw [slot_eq h.cap hi]
  exact (hlist.mem_iff i hi).mp hmem

/-- An allocation and a refused release in a transaction on a pool of two slots. -/
theorem abort_restores_freeList_of_two :
    let db := newMemory 2 0
    let aborted := (runAll PoolOp.run [.alloc, .free 1] db.efTxnBegin.2).efTxnAbort
    aborted.1 = .ok ∧ aborted.2.FreeListExact ∧
      ∀ n, ∀ i ∈ (allocRun n aborted.2).1, (db.slot i).status = statusFree :=
  abort_restores_freeList (by decide +kernel) (by decide +kernel) (by decide +kernel) _
    ⟨by decide +kernel, by decide +kernel, trivial⟩ ⟨trivial, by decide +kernel, trivial⟩

/-- A release in a transaction is not undone: the free list starts with the slot, which is in use
again, and the next allocation returns it. -/
theorem abort_release_loses_slot :
    let db := (newMemory 2 0).efAllocSlot.2.2
    let aborted := (runAll PoolOp.run [.free 0] db.efTxnBegin.2).efTxnAbort
    db.Layout ∧ db.hashCapacity = 0 ∧ db.FreeListExact ∧ db.efTxnBegin.1 = .ok ∧
      PoolOp.fits (.free 0) db.efTxnBegin.2 ∧ aborted.1 = .ok ∧ ¬ aborted.2.FreeListExact ∧
      (db.slot 0).status = statusUsed ∧ (allocRun 1 aborted.2).1 = [0] := by
  decide +kernel

end Db

end Endfields.Model
