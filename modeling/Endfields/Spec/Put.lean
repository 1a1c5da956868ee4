import Endfields.Spec.Rehash

/-!
# Index insertions inside a transaction

* **Insertion** (`efIndexPut_holds`): inside a transaction `ef_index_put` never rehashes; it leaves
  the slots and the superblock alone, and a new key is counted and recorded.
* **Undoing it** (`undoesTo_putRec`): the inverse action removes one entry that leads to the slot.
  On a handle that the removal does not shrink, it leaves the view as it is.
-/

namespace Endfields.Model

open Endfields.Lib

namespace Db

variable {g : Geometry} {db : Db} {k s : ℕ}

/-! ### The entry count -/

lemma hashEntryCount_putEntryLoop (key off fuel i home : ℕ) (e : HashEntry) (db : Db) :
    (putEntryLoop key off fuel i home e db).2.2.hashEntryCount = db.hashEntryCount := by
  induction fuel generalizing i home e db with
  | zero => rfl
  | succ fuel ih =>
      unfold putEntryLoop
      simp only
      by_cases h1 : home + db.hashCapacity ≤ i
      · rw [if_pos h1]
      rw [if_neg h1]
      by_cases h2 : (db.entry (i % db.hashCapacity)).empty = true
      · rw [if_pos h2]
        rfl
      rw [if_neg h2]
      by_cases h3 : (db.entry (i % db.hashCapacity)).keyHash = key
      · rw [if_pos h3]
        rfl
      rw [if_neg h3]
      split_ifs
      · exact (ih _ _ _ _).trans rfl
      · exact ih _ _ _ _

lemma hashEntryCount_efIndexPutEntry (db : Db) (key off : ℕ) :
    (db.efIndexPutEntry key off).2.2.hashEntryCount = db.hashEntryCount := by
  unfold efIndexPutEntry
  split_ifs
  · rfl
  · rfl
  · exact hashEntryCount_putEntryLoop ..

/-! ### Insertion -/

/-- The record of an insertion of the key hash `k` for slot `s`. -/
def putRec (g : Geometry) (k s : ℕ) : UndoRec :=
  ⟨some .indexPut, g.ptr s, 0, leBytes 8 k ++ List.replicate 4 0⟩

lemma efTxnRecordIndexPut_spec (k : ℕ) (h : (db.view g).Ok g)
    (hact : (db.view g).core.txnActive = true) {us : List UndoRec}
    (hlog : (db.view g).seg.Holds us) (hroom : us.length < undoLogDefaultSlots) (hs : s < g.n) :
    ∃ seg, (db.efTxnRecordIndexPut k (g.ptr s)).2.view g = (db.view g).setSeg seg ∧
      seg.Holds (us ++ [putRec g k s]) := by
  have hptr := Nat.mod_eq_of_lt (g.ptr_lt_u64 hs)
  have hlen : (leBytes 8 k ++ List.replicate 4 0).length = 12 := by simp
  obtain ⟨seg, hview, hholds⟩ := efUndoRecordAppend_spec .indexPut (g.ptr s) 0 h hact hlog hlen hroom
  rw [hptr] at hholds
  exact ⟨seg, hview, hholds⟩

/-- What an insertion inside a transaction does: nothing, or it writes buckets, without a new key,
or with one that is counted and recorded. -/
inductive Put (g : Geometry) (db : Db) (us : List UndoRec) (k s : ℕ) (db' : Db) : Prop
  | same (hstill : View.Still (db.view g) (db'.view g))
      (hcount : db'.hashEntryCount = db.hashEntryCount)
  | added (hs : s < g.n) (hfree : (db.view g).lockFree) (w : View) (seg : Segment)
      (hstill : View.Still (db.view g) w) (hview : db'.view g = w.setSeg seg)
      (hseg : seg.Holds (us ++ [putRec g k s]))
      (hcount : db'.hashEntryCount = (db.hashEntryCount + 1) % u32)

/-- The insertion under the lock. -/
lemma Locked.put {db₁ : Db} (hl : Locked g db db₁) (h : (db.view g).Ok g)
    (hact : db.txnActive = true) {us : List UndoRec} (hlog : (db.view g).seg.Holds us)
    (hroom : us.length < undoLogDefaultSlots) (hs : s < g.n) :
    Put g db us k s (db₁.indexPutLocked k (g.ptr s)).2 := by
  have hview := view_efIndexPutEntry (hl.bound h.toBound).cap k (g.ptr s)
  have hcount := hashEntryCount_efIndexPutEntry db₁ k (g.ptr s)
  have hcount₁ : db₁.hashEntryCount = db.hashEntryCount := congrArg Index.count hl.index
  unfold indexPutLocked
  generalize db₁.efIndexPutEntry k (g.ptr s) = r at hview hcount ⊢
  obtain ⟨err, added, db₂⟩ := r
  simp only at hview hcount
  have hleave : ∀ db₃ : Db, db₃.view g = db₂.view g →
      View.Still (db.view g) (db₃.efIndexWriteEnd.view g) ∧
        db₃.efIndexWriteEnd.hashEntryCount = db₃.hashEntryCount := by
    intro db₃ h₃
    obtain ⟨hst, hix⟩ := hl.leave (h₃.trans hview)
    exact ⟨hst, congrArg Index.count hix⟩
  obtain ⟨hst₂, hc₂⟩ := hleave db₂ rfl
  have hcount₂ : db₂.efIndexWriteEnd.hashEntryCount = db.hashEntryCount := by omega
  cases err with
  | ok =>
      cases added with
      | false =>
          simp only [Bool.false_eq_true, if_false, and_false]
          exact .same hst₂ hcount₂
      | true =>
          obtain ⟨hst, hc⟩ := hleave { db₂ with hashEntryCount := (db₂.hashEntryCount + 1) % u32 } rfl
          simp only [if_true, and_true]
          generalize ({ db₂ with hashEntryCount := (db₂.hashEntryCount + 1) % u32 } :
              Db).efIndexWriteEnd
            = db₄ at hst hc ⊢
          have hact₄ : db₄.txnActive = true := (congrArg Core.txnActive hst.core).trans hact
          have hok₄ : (db₄.efDbMarkMetaDirty.view g).Ok g := hst.ok h
          have hlog₄ : (db₄.efDbMarkMetaDirty.view g).seg.Holds us := by
            rw [view_efDbMarkMetaDirty, hst.seg]
            exact hlog
          obtain ⟨seg, hrec, hseg⟩ := efTxnRecordIndexPut_spec k hok₄ hact₄ hlog₄ hroom hs
          rw [if_pos (show db₄.efDbMarkMetaDirty.txnActive = true from hact₄)]
          refine .added hs hl.free _ seg hst hrec hseg ?_
          refine (frame_efUndoRecordAppend ..).hashEntryCount.trans (hc.trans ?_)
          show (db₂.hashEntryCount + 1) % u32 = _
          rw [hcount, hcount₁]
  | _ => exact .same hst₂ hcount₂

/-- **Insertion inside a transaction.** -/
theorem efIndexPut_holds (h : (db.view g).Ok g) (hact : db.txnActive = true) {us : List UndoRec}
    (hlog : (db.view g).seg.Holds us) (hroom : us.length < undoLogDefaultSlots) (key : List UInt8)
    (s : ℕ) : Put g db us (efKeyHash (cString key)) s (db.efIndexPut key s).2 := by
  have hw : db.readonly = false := h.writable
  unfold efIndexPut indexPutAt
  simp only
  generalize efKeyHash (cString key) = k
  rw [if_neg (by simp [hw])]
  by_cases hbusy : db.txnActive = true ∧ db.hashCapacity ≠ 0 ∧
      efIndexNeedsGrow db.hashEntryCount db.hashCapacity = true ∧
      (db.efIndexFindEntryUnlocked k).toOption.isNone = true
  · rw [if_pos hbusy]
    exact .same (View.Still.refl _) rfl
  rw [if_neg hbusy]
  rcases efIndexWriteBegin_cases g db with ⟨herr, hst, hix⟩ | ⟨hok, hl⟩
  · generalize db.efIndexWriteBegin = r at herr hst hix ⊢
    obtain ⟨e, db₁⟩ := r
    have hcount : db₁.hashEntryCount = db.hashEntryCount := congrArg Index.count hix
    cases e with
    | ok => exact absurd rfl herr
    | _ => exact .same hst hcount
  generalize db.efIndexWriteBegin = r at hok hl ⊢
  obtain ⟨e, db₁⟩ := r
  simp only at hok hl
  subst hok
  simp only
  have hcount₁ : db₁.hashEntryCount = db.hashEntryCount := congrArg Index.count hl.index
  by_cases hs : s < g.n
  swap
  · rw [if_pos (efSlotToOffset_of_ge (hl.bound h.toBound) (by omega))]
    obtain ⟨hst, hix⟩ := hl.leave rfl
    exact .same hst ((congrArg Index.count hix).trans hcount₁)
  rw [efSlotToOffset_of_lt (hl.bound h.toBound) hs, if_neg (g.ptr_ne_zero s)]
  -- the check before the lock was the same, so there is nothing to grow for
  have hgrow : ¬ (db₁.hashCapacity ≠ 0 ∧
      efIndexNeedsGrow db₁.hashEntryCount db₁.hashCapacity = true ∧
      (db₁.efIndexFindEntryUnlocked k).toOption.isNone = true) := by
    rw [hl.hashCapacity, hcount₁, efIndexFindEntryUnlocked_of_index hl.index]
    exact fun hg => hbusy ⟨hact, hg⟩
  rw [if_neg hgrow]
  exact hl.put h hact hlog hroom hs

/-! ### Undoing an insertion -/

/-- Without contention the removal of a slot's entry succeeds, found or not. -/
lemma efIndexRemoveBySlot_ok (h : (db.view g).Bound g) (hq : db.env.contention = [])
    (hfree : (db.view g).lockFree) (i : ℕ) : (db.efIndexRemoveBySlot i).1 = .ok := by
  rw [(efIndexRemoveBySlot_fst h.writable i).1]
  obtain ⟨-, ⟨-, -, hcont⟩ | ⟨hok, -, -⟩⟩ := efIndexWriteBegin_spec g db
  · exact absurd hq (hcont hfree)
  · exact hok

/-- **Undoing an insertion.** On a handle that one removal does not shrink, and with the lock to be
had, the inverse action leaves the view, and takes at most one entry off. -/
lemma undoesTo_putRec (h : (db.view g).Ok g) (hq : db.env.contention = [])
    (hfree : (db.view g).lockFree) (hsteady : db.steady 1) (k : ℕ) (hs : s < g.n) :
    ∃ y, UndoesTo g (putRec g k s) db y ∧ y.view g = db.view g ∧
      db.hashEntryCount - 1 ≤ y.hashEntryCount := by
  have hle : db.mapped s ≤ 1 := by
    unfold mapped
    split_ifs <;> omega
  have hr := efIndexRemoveBySlot_spec h.toBound (hsteady.mono hle)
  have hok := efIndexRemoveBySlot_ok h.toBound hq hfree s
  have hview := hr.still.eq hq
  have hcount := hr.count
  refine ⟨(db.efIndexRemoveBySlot s).2, ⟨fun a hread => ?_, ?_, ?_⟩, hview, by omega⟩
  · have hkind : UndoKind.ofCode (load db.mem a 1) = some .indexPut := by
      have hk : (UndoRec.read db.mem a).kind = (putRec g k s).kind := by rw [hread]
      exact hk
    have htarget : load db.mem (a + 4) 8 = g.ptr s := by
      have ht : (UndoRec.read db.mem a).target = (putRec g k s).target := by rw [hread]
      exact ht
    unfold replayRecord
    simp only [hkind, htarget, efOffsetToSlotId_ptr h.toBound hs]
    generalize db.efIndexRemoveBySlot s = r at hok
    obtain ⟨e, db'⟩ := r
    simp only at hok
    subst hok
    rfl
  · rw [hview]
    exact h
  · rw [hview]

end Db

end Endfields.Model
