import Endfields.Pool.Status

/-!
# Releases that fail

`ef_free_slot` clears the link of a used slot, and gives back the slots chained from it, before the
last checks are made.

* `Db.FreeUnchanged db db'`: the slots, the free list, the free count and the index are those of
  `db`.
* `releaseChainLoop_inv`: an invariant of views that survives the release of one slot survives the
  release of a chain, up to its end or to a failure.
* **`Db.efFreeSlot_unchanged_iff`**: a release that fails changes nothing, whatever the lock
  attempts come to, exactly if the slot is not accepted, or is not a used slot with a link; with a
  link, only where no lock is taken and the chain comes to its end.
-/

namespace Endfields.Model

open Endfields.Lib

namespace Db

variable {g : Geometry} {db db' db'' : Db} {i p fuel off : ℕ} {l : List ℕ}

/-- The state that a failed release is to leave. -/
structure FreeUnchanged (db db' : Db) : Prop where
  maxSlots : db'.sb.maxSlots = db.sb.maxSlots
  head : db'.sb.freeListHead = db.sb.freeListHead
  count : db'.sb.freeCount = db.sb.freeCount
  status : ∀ j, j < db.sb.maxSlots → (db'.slot j).status = (db.slot j).status
  payload : ∀ j, j < db.sb.maxSlots → (db'.slot j).payload = (db.slot j).payload
  next : ∀ j, j < db.sb.maxSlots → (db'.slot j).nextOffset = (db.slot j).nextOffset
  index : db'.index = db.index

/-- The handle, with the outcomes of its next lock attempts. -/
def withContention (db : Db) (c : List Bool) : Db :=
  { db with env := { db.env with contention := c } }

lemma FreeUnchanged.trans (h : FreeUnchanged db db') (h' : FreeUnchanged db' db'') :
    FreeUnchanged db db'' where
  maxSlots := h'.maxSlots.trans h.maxSlots
  head := h'.head.trans h.head
  count := h'.count.trans h.count
  status j hj := (h'.status j (by rw [h.maxSlots]; exact hj)).trans (h.status j hj)
  payload j hj := (h'.payload j (by rw [h.maxSlots]; exact hj)).trans (h.payload j hj)
  next j hj := (h'.next j (by rw [h.maxSlots]; exact hj)).trans (h.next j hj)
  index := h'.index.trans h.index

/-- The error word and the environment are no part of it. -/
lemma freeUnchanged_setError (db : Db) (e : Err) : FreeUnchanged db (db.setError e) :=
  ⟨rfl, rfl, rfl, fun _ _ => rfl, fun _ _ => rfl, fun _ _ => rfl, rfl⟩

lemma freeUnchanged_withContention (db : Db) (c : List Bool) :
    FreeUnchanged db (db.withContention c) :=
  ⟨rfl, rfl, rfl, fun _ _ => rfl, fun _ _ => rfl, fun _ _ => rfl, rfl⟩

/-- Views that agree on the superblock and on three fields of the slots. -/
lemma freeUnchanged_of_view (h : (db.view g).Bound g) (h' : (db'.view g).Bound g)
    (hsb : db'.sb.freeListHead = db.sb.freeListHead ∧ db'.sb.freeCount = db.sb.freeCount)
    (hslots : ∀ j, j < g.n → ((db'.view g).slots j).status = ((db.view g).slots j).status ∧
      ((db'.view g).slots j).payload = ((db.view g).slots j).payload ∧
      ((db'.view g).slots j).nextOffset = ((db.view g).slots j).nextOffset)
    (hindex : db'.index = db.index) : FreeUnchanged db db' := by
  have hmax : db.sb.maxSlots = g.n := h.maxSlots
  have hmax' : db'.sb.maxSlots = g.n := h'.maxSlots
  have hslot : ∀ j, j < db.sb.maxSlots → (db'.slot j).status = (db.slot j).status ∧
      (db'.slot j).payload = (db.slot j).payload ∧
      (db'.slot j).nextOffset = (db.slot j).nextOffset := by
    intro j hj
    rw [hmax] at hj
    rw [slot_eq h.cap hj, slot_eq h'.cap hj]
    exact hslots j hj
  exact ⟨hmax'.trans hmax.symm, hsb.1, hsb.2, fun j hj => (hslot j hj).1, fun j hj => (hslot j hj).2.1,
    fun j hj => (hslot j hj).2.2, hindex⟩

/-! ### What a release does first -/

/-- **A release that is refused** sets the error alone. -/
lemma efFreeSlot_refused (hm : db.Mapped) (hr : ¬ (db.readonly = false ∧ db.freeAccepts i)) :
    ∃ e, db.efFreeSlot i = (e, db.setError e) := by
  by_cases hw : db.readonly = false
  swap
  · refine ⟨.readonly, ?_⟩
    unfold efFreeSlot efDbRequireWrite
    rw [if_pos (by simpa using hw)]
  obtain ⟨g, h⟩ := hm.geometry hw
  have hr : ¬ db.freeAccepts i := fun hacc => hr ⟨hw, hacc⟩
  have hmax : db.sb.maxSlots = g.n := h.maxSlots
  unfold efFreeSlot
  rw [efDbRequireWrite_eq h.writable]
  simp only
  by_cases hi : i < g.n
  swap
  · rw [efPeekSlot_of_ge h (by omega)]
    exact ⟨_, rfl⟩
  rw [efPeekSlot_of_lt h hi]
  have hslot : (db.setError .ok).slotAt (g.ptr i) = (db.view g).slots i := slotAt_eq db hi
  simp only [hslot]
  unfold freeAccepts at hr
  rw [slot_eq h.cap hi, hmax] at hr
  by_cases h1 : ((db.view g).slots i).status = statusFree
  · rw [if_pos h1]
    exact ⟨_, rfl⟩
  by_cases h2 : ((db.view g).slots i).status = statusQueued
  · rw [if_neg h1, if_pos h2]
    exact ⟨_, rfl⟩
  rw [if_neg h1, if_neg h2]
  split_ifs with h3 h4
  · exact ⟨_, rfl⟩
  · exact ⟨_, rfl⟩
  · exact absurd ⟨hi, h1, h2, h3, h4⟩ hr
  · exact absurd ⟨hi, h1, h2, h3, h4⟩ hr

/-! ### The release of a chain -/

/-- An invariant of views that survives what the release of one overflow slot does. -/
structure ReleaseInv (g : Geometry) (P : View → Prop) : Prop where
  bound : ∀ {v}, P v → v.Bound g
  still : ∀ {v w}, P v → View.Still v w → P w
  clear : ∀ {v j}, P v → j < g.n → (v.slots j).status = statusOverflow →
    P (v.setSlot j { v.slots j with nextOffset := 0 })
  push : ∀ {v j}, P v → j < g.n → (v.slots j).status = statusOverflow → P (v.pushSlot g j)

/-- **The release of a chain** in a database without an index keeps every such invariant, whether it
comes to the end or fails. -/
lemma releaseChainLoop_inv {P : View → Prop} (hP : ReleaseInv g P) (hcap : g.cap = 0)
    (h : P (db.view g)) : P ((releaseChainLoop fuel off db).2.view g) := by
  induction fuel generalizing off db with
  | zero => exact h
  | succ fuel ih =>
      have hb := hP.bound h
      rw [releaseChainLoop]
      by_cases h0 : off = 0
      · rw [if_pos h0]
        exact h
      rw [if_neg h0]
      rcases hid : db.efOffsetToSlotId off with e | j
      · exact h
      have hj := ((efOffsetToSlotId_eq_ok_iff hb _ _).mp hid).1
      simp only
      rw [slotPtr_eq hb.cap, slotAt_eq db hj]
      by_cases hst : ((db.view g).slots j).status = statusOverflow
      swap
      · rw [if_pos hst]
        exact h
      rw [if_neg (not_not.mpr hst)]
      have hview₁ := @view_setNext g db j 0 hj
      have h₁ : P ((db.setNext (g.ptr j) 0).view g) := by
        rw [hview₁]
        exact hP.clear h hj hst
      have hst₁ : (((db.setNext (g.ptr j) 0).view g).slots j).status = statusOverflow := by
        rw [hview₁, View.setSlot_slots, Function.update_self]
        exact hst
      have hret := efReturnSlotToPool_cases (hP.bound h₁) hcap hj
      generalize (db.setNext (g.ptr j) 0).efReturnSlotToPool j (g.ptr j) = r at hret
      obtain ⟨e, db₂⟩ := r
      rcases hret with ⟨herr, hstill⟩ | ⟨hok, hstill⟩
      · have hres : P (db₂.view g) := hP.still h₁ hstill
        cases e <;> first | exact absurd rfl herr | exact hres
      · simp only at hok hstill
        subst hok
        exact ih (hP.still (hP.push h₁ hj hst₁) hstill)

/-- The slots that are not overflow slots are left alone. -/
lemma releaseInv_kept : ReleaseInv g fun v => v.Bound g ∧
    ∀ a, ((db.view g).slots a).status ≠ statusOverflow → v.slots a = (db.view g).slots a := by
  have hne : ∀ {v : View} {a j : ℕ}, (v.Bound g ∧ ∀ a, ((db.view g).slots a).status ≠ statusOverflow →
      v.slots a = (db.view g).slots a) → (v.slots j).status = statusOverflow →
        ((db.view g).slots a).status ≠ statusOverflow → a ≠ j := by
    rintro v a _ h hst ha rfl
    rw [h.2 a ha] at hst
    exact ha hst
  refine ⟨fun h => h.1, fun h hst => ⟨hst.bound h.1, fun a ha => ?_⟩, fun h hj hst =>
    ⟨View.bound_setSlot.mpr h.1, fun a ha => ?_⟩, fun h hj hst =>
    ⟨View.bound_pushSlot.mpr h.1, fun a ha => ?_⟩⟩
  · rw [hst.slots]
    exact h.2 a ha
  · rw [View.setSlot_slots, Function.update_of_ne (hne h hst ha)]
    exact h.2 a ha
  · rw [View.pushSlot_slots_of_ne (hne h hst ha)]
    exact h.2 a ha

/-- In a database without an index, a chain that was released had come to its end. -/
lemma overflowPath_of_released (h : (db.view g).Bound g) (hcap : g.cap = 0)
    (hok : (releaseChainLoop fuel off db).1 = .ok) :
    ∃ l : List ℕ, l.Nodup ∧ View.OverflowPath g (db.view g) off l 0 := by
  obtain ⟨l, hpath, hnd, -⟩ := releaseChainLoop_spec fuel off h
    (fun l _ _ _ => staysPut_of_small h.cap (by omega) l) hok
  exact ⟨l, hnd, hpath⟩

/-- The schema, and the place of the undo segment. -/
lemma releaseInv_fixed : ReleaseInv g fun v => v.Bound g ∧ v.sb.schemaVersion < schemaVersion ∧
    (v.core.txnActive = true → g.undoBase ≤ v.core.undoLogBase) := by
  refine ⟨fun h => h.1, fun h hst => ⟨hst.bound h.1, ?_, ?_⟩,
    fun h _ _ => ⟨View.bound_setSlot.mpr h.1, h.2⟩, fun h _ _ => ⟨View.bound_pushSlot.mpr h.1, h.2⟩⟩
  · rw [hst.sb]
    exact h.2.1
  · rw [hst.core]
    exact h.2.2

/-- Where no lock is taken, a chain that comes to its end is released. -/
lemma releaseChainLoop_of_path (h : (db.view g).Bound g) (hcap : g.cap = 0)
    (hold : db.sb.schemaVersion < schemaVersion) (hnd : l.Nodup)
    (hpath : View.OverflowPath g (db.view g) off l 0) (hfuel : l.length < fuel) :
    (releaseChainLoop fuel off db).1 = .ok := by
  induction l generalizing db off fuel with
  | nil =>
      obtain ⟨fuel, rfl⟩ : ∃ k, fuel = k + 1 := ⟨fuel - 1, by omega⟩
      have h0 : off = 0 := hpath
      rw [releaseChainLoop, if_pos h0]
  | cons j l ih =>
      rw [List.length_cons] at hfuel
      obtain ⟨fuel, rfl⟩ : ∃ k, fuel = k + 1 := ⟨fuel - 1, by omega⟩
      obtain ⟨hres, hlink⟩ := hpath
      obtain ⟨hj, hptr, hst⟩ := View.overflowAt_eq_some_iff.mp hres
      obtain ⟨hjl, hnd⟩ := List.nodup_cons.mp hnd
      rw [releaseChainLoop, hptr, if_neg (g.ptr_ne_zero j), efOffsetToSlotId_ptr h hj]
      simp only
      rw [slotPtr_eq h.cap, slotAt_eq db hj, if_neg (not_not.mpr hst)]
      have hview₁ := @view_setNext g db j 0 hj
      have hb₁ : ((db.setNext (g.ptr j) 0).view g).Bound g := by
        rw [hview₁, View.bound_setSlot]
        exact h
      have hold₁ : ((db.setNext (g.ptr j) 0).view g).sb.schemaVersion < schemaVersion := by
        rw [hview₁]
        exact hold
      obtain ⟨hfst, -⟩ := efReturnSlotToPool_fst (g := g) hb₁.writable j (g.ptr j)
      have hbegin : (db.setNext (g.ptr j) 0).efIndexWriteBegin.1 = .ok := by
        have hold₁' : (db.setNext (g.ptr j) 0).sb.schemaVersion < schemaVersion := hold₁
        unfold efIndexWriteBegin
        rw [if_pos hold₁']
      have hret := efReturnSlotToPool_cases hb₁ hcap hj
      rw [hbegin] at hfst
      generalize (db.setNext (g.ptr j) 0).efReturnSlotToPool j (g.ptr j) = r at hret hfst
      obtain ⟨e, db₂⟩ := r
      have he : e = .ok := hfst
      subst he
      obtain ⟨herr, -⟩ | ⟨-, hstill⟩ := hret
      · exact absurd rfl herr
      -- the slots ahead are as they were
      have hsame : ∀ a, a ≠ j → (db₂.view g).slots a = (db.view g).slots a := by
        intro a ha
        rw [hstill.slots, View.pushSlot_slots_of_ne ha, hview₁, View.setSlot_slots,
          Function.update_of_ne ha]
      refine ih (hstill.bound (View.bound_pushSlot.mpr hb₁)) ?_ hnd ?_ (by omega)
      · have hsb : (db₂.view g).sb.schemaVersion =
            ((db.setNext (g.ptr j) 0).view g).sb.schemaVersion := by
          rw [hstill.sb]
          rfl
        exact hsb.trans_lt hold₁
      · refine hlink.mono fun o a hal ha => ?_
        have haj : a ≠ j := fun heq => hjl (heq ▸ hal)
        obtain ⟨hlt, hptr', hst'⟩ := View.overflowAt_eq_some_iff.mp ha
        refine ⟨View.overflowAt_eq_some_iff.mpr ⟨hlt, hptr', ?_⟩, ?_⟩
        · rw [hsame a haj]
          exact hst'
        · simp only [hsame a haj]

/-- The first lock attempt fails. -/
lemma efIndexWriteBegin_of_contended {c : List Bool} (hc : db.env.contention = true :: c)
    (hs : ¬ db.sb.schemaVersion < schemaVersion) : db.efIndexWriteBegin.1 ≠ .ok := by
  unfold efIndexWriteBegin efSbIndexWriteLockAcquire contended
  rw [if_neg hs, if_neg hs, hc]
  simp

/-- With the first lock attempt failing, a link is not followed to its end. -/
lemma releaseChainLoop_of_contended {c : List Bool} (h : (db.view g).Bound g)
    (hc : db.env.contention = true :: c) (hs : ¬ db.sb.schemaVersion < schemaVersion) (hoff : off ≠ 0) :
    (releaseChainLoop (fuel + 1) off db).1 ≠ .ok ∧
      ∀ a, ((db.view g).slots a).status ≠ statusOverflow →
        ((releaseChainLoop (fuel + 1) off db).2.view g).slots a = (db.view g).slots a := by
  rw [releaseChainLoop, if_neg hoff]
  rcases hid : db.efOffsetToSlotId off with e | j
  · refine ⟨?_, fun _ _ => rfl⟩
    rintro rfl
    exact efOffsetToSlotId_ne_error_ok hid
  have hj := ((efOffsetToSlotId_eq_ok_iff h _ _).mp hid).1
  simp only
  rw [slotPtr_eq h.cap, slotAt_eq db hj]
  by_cases hst : ((db.view g).slots j).status = statusOverflow
  swap
  · rw [if_pos hst]
    exact ⟨fun h0 => (by cases h0), fun _ _ => rfl⟩
  rw [if_neg (not_not.mpr hst)]
  have hview₁ := @view_setNext g db j 0 hj
  have hb₁ : ((db.setNext (g.ptr j) 0).view g).Bound g := by
    rw [hview₁, View.bound_setSlot]
    exact h
  have hs₁ : ¬ ((db.setNext (g.ptr j) 0).view g).sb.schemaVersion < schemaVersion := by
    rw [hview₁]
    exact hs
  have hbegin : (db.setNext (g.ptr j) 0).efIndexWriteBegin.1 ≠ .ok :=
    efIndexWriteBegin_of_contended (show (db.setNext (g.ptr j) 0).env.contention = true :: c
        from hc) hs₁
  obtain ⟨hfst, hsnd⟩ := efReturnSlotToPool_fst (g := g) hb₁.writable j (g.ptr j)
  have hview := hsnd hbegin
  obtain ⟨-, ⟨-, hstill, -⟩ | ⟨hok, -⟩⟩ := efIndexWriteBegin_spec g (db.setNext (g.ptr j) 0)
  swap
  · exact absurd hok hbegin
  rw [← hfst] at hbegin
  generalize (db.setNext (g.ptr j) 0).efReturnSlotToPool j (g.ptr j) = r at hbegin hview
  obtain ⟨e, db₂⟩ := r
  have hkept : ∀ a, ((db.view g).slots a).status ≠ statusOverflow →
      (db₂.view g).slots a = (db.view g).slots a := by
    intro a ha
    have haj : a ≠ j := by
      rintro rfl
      exact ha hst
    have hsame : (db₂.view g).slots a = ((db.setNext (g.ptr j) 0).view g).slots a := by
      rw [show db₂.view g = _ from hview, hstill.slots]
    rw [hsame, hview₁, View.setSlot_slots, Function.update_of_ne haj]
  cases e with
  | ok => exact absurd rfl hbegin
  | _ => exact ⟨fun h0 => (by cases h0), hkept⟩

/-! ### The records of a release -/

/-- A record in a segment that lies behind the slots changes nothing in front of it. -/
lemma efUndoRecordAppend_behind (h : db.txnActive = true → g.undoBase ≤ db.undoLogBase)
    (hcap : db.hashCapacity = g.cap) (kind : UndoKind) (target aux : ℕ) (before : List UInt8) :
    ∃ seg, (db.efUndoRecordAppend kind target aux before).2.view g = (db.view g).setSeg seg ∧
      (db.efUndoRecordAppend kind target aux before).2.index = db.index := by
  rcases db.efUndoRecordAppend_cases kind target aux before with
    heq | heq | ⟨hact, -, m, tail, count, hm, heq⟩
  · rw [heq]
    exact ⟨_, rfl, rfl⟩
  · rw [heq]
    exact ⟨_, rfl, rfl⟩
  · rw [heq]
    have hbase := h hact
    refine ⟨_, view_of_segment_write ({ db with undoTail := tail, undoRecordCount := count } : Db)
      (m := m) fun x hx => hm x (by omega), ?_⟩
    refine @index_of_agree ({ db with undoTail := tail, undoRecordCount := count } : Db) m ?_
    intro x _ hx
    have hx : x < db.slotsBase := hx
    rw [slotsBase_eq_base hcap] at hx
    have hle : g.base ≤ g.undoBase := Nat.le_add_right _ _
    exact hm x (by omega)

/-- The records of a release. -/
lemma recordFree_spec (h : (db.view g).Bound g)
    (hseg : db.txnActive = true → g.undoBase ≤ db.undoLogBase) (i next status : ℕ) :
    ∃ seg, (db.recordFree i next status).view g = (db.view g).setSeg seg ∧
      (db.recordFree i next status).index = db.index := by
  unfold recordFree
  split_ifs
  swap
  · exact ⟨_, rfl, rfl⟩
  obtain ⟨seg₁, hview₁, hindex₁⟩ := efUndoRecordAppend_behind hseg h.cap .slotFree
    (db.efSlotToOffset i) status (leBytes 8 next ++ List.replicate 4 0)
  have hrec : (db.efTxnRecordSlotFree i next status).2 = (db.efUndoRecordAppend .slotFree
    (db.efSlotToOffset i) status (leBytes 8 next ++ List.replicate 4 0)).2 := rfl
  rw [hrec]
  generalize (db.efUndoRecordAppend .slotFree (db.efSlotToOffset i) status
    (leBytes 8 next ++ List.replicate 4 0)).2 = db₁ at hview₁ hindex₁ ⊢
  have hcore : db₁.core = db.core := congrArg View.core hview₁
  have hseg₁ : db₁.txnActive = true → g.undoBase ≤ db₁.undoLogBase := by
    rw [show db₁.txnActive = db.txnActive from congrArg Core.txnActive hcore,
      show db₁.undoLogBase = db.undoLogBase from congrArg Core.undoLogBase hcore]
    exact hseg
  have hcap₁ : db₁.hashCapacity = g.cap := (congrArg Core.hashCapacity hcore).trans h.cap
  obtain ⟨seg₂, hview₂, hindex₂⟩ := efUndoRecordAppend_behind hseg₁ hcap₁ .freeCount 0
    (int64Word 1) (List.replicate 12 0)
  refine ⟨seg₂, ?_, hindex₂.trans hindex₁⟩
  rw [hview₁] at hview₂
  exact hview₂

/-! ### Releases that fail -/

/-- A slot that is not given back is as it was, and so is everything else. -/
lemma freeUnchanged_of_return (h : (db.view g).Bound g)
    (herr : (db.efReturnSlotToPool i p).1 ≠ .ok) :
    FreeUnchanged db (db.efReturnSlotToPool i p).2 := by
  obtain ⟨hfst, hsnd⟩ := efIndexRemoveBySlot_fst h.writable i
  have hbegin : db.efIndexWriteBegin.1 ≠ .ok := by
    rw [← (efReturnSlotToPool_fst (g := g) h.writable i p).1]
    exact herr
  obtain ⟨-, ⟨-, hstill, -⟩ | ⟨hok, -⟩⟩ := efIndexWriteBegin_spec g db
  swap
  · exact absurd hok hbegin
  have heq : (db.efReturnSlotToPool i p).2 =
      db.efIndexWriteBegin.2.setError db.efIndexWriteBegin.1 := by
    unfold efReturnSlotToPool
    rw [← hsnd hbegin, ← hfst]
    rw [← hfst] at hbegin
    generalize db.efIndexRemoveBySlot i = r at hbegin ⊢
    obtain ⟨e, db₁⟩ := r
    cases e with
    | ok => exact absurd rfl hbegin
    | _ => rfl
  rw [heq]
  have hunch : FreeUnchanged db db.efIndexWriteBegin.2 := by
    refine freeUnchanged_of_view h (hstill.bound h) ?_ (fun j _ => ?_) (index_efIndexWriteBegin db)
    · have hsb : db.efIndexWriteBegin.2.sb = db.sb := hstill.sb
      rw [hsb]
      exact ⟨rfl, rfl⟩
    · rw [hstill.slots]
      exact ⟨rfl, rfl, rfl⟩
  exact hunch.trans (freeUnchanged_setError _ _)

/-- The state after the chain of a slot without a link was released. -/
lemma freeUnchanged_of_unlinked (h : (db.view g).Bound g) (hi : i < g.n)
    (hnext : ((db.view g).slots i).nextOffset = 0) :
    ∃ db₁, db.efBlobReleaseChain i (g.ptr i) = (.ok, db₁) ∧ FreeUnchanged db db₁ ∧
      (db₁.view g).Bound g ∧ db₁.core = db.core := by
  obtain ⟨fuel, hfuel⟩ : ∃ k, 17 * ((db.setNext (g.ptr i) 0).efSlotHeaderCrcStore i
      (g.ptr i)).sb.maxSlots + 17 = k + 1 := ⟨_, rfl⟩
  have hview : ((db.setNext (g.ptr i) 0).efSlotHeaderCrcStore i (g.ptr i)).view g =
      (db.view g).setSlot i
        (Slot.sealed (db.view g).sb.slotCrc i { (db.view g).slots i with nextOffset := 0 }) := by
    rw [view_efSlotHeaderCrcStore hi, view_setNext hi]
    simp
  have hindex : ((db.setNext (g.ptr i) 0).efSlotHeaderCrcStore i (g.ptr i)).index = db.index := by
    rw [index_efSlotHeaderCrcStore, index_setNext _ (slotsBase_le_ptr h i)]
    exact slotsBase_le_ptr h i
  refine ⟨(db.setNext (g.ptr i) 0).efSlotHeaderCrcStore i (g.ptr i), ?_, ?_, ?_,
    congrArg View.core hview⟩
  · unfold efBlobReleaseChain
    simp only
    rw [slotAt_eq db hi, hnext, Nat.mul_add, Nat.mul_one, hfuel, releaseChainLoop, if_pos rfl]
  · have hb : (((db.setNext (g.ptr i) 0).efSlotHeaderCrcStore i (g.ptr i)).view g).Bound g := by
      rw [hview, View.bound_setSlot]
      exact h
    refine freeUnchanged_of_view h hb ?_ (fun j _ => ?_) hindex
    · have hsb := congrArg View.sb hview
      exact ⟨congrArg Superblock.freeListHead hsb, congrArg Superblock.freeCount hsb⟩
    · rw [hview, View.setSlot_slots, Function.update_apply]
      split_ifs with hji
      · subst hji
        exact ⟨Slot.sealed_status .., Slot.sealed_payload ..,
            (Slot.sealed_nextOffset ..).trans hnext.symm⟩
      · exact ⟨rfl, rfl, rfl⟩
  · rw [hview, View.bound_setSlot]
    exact h

/-- **Without a link** a release fails at the lock of the index, and changes nothing. -/
lemma efFreeSlot_unlinked (h : (db.view g).Bound g) (hacc : db.freeAccepts i)
    (hseg : db.txnActive = true → g.undoBase ≤ db.undoLogBase)
    (hlink : ((db.view g).slots i).status = statusUsed → ((db.view g).slots i).nextOffset = 0)
    (herr : (db.efFreeSlot i).1 ≠ .ok) : FreeUnchanged db (db.efFreeSlot i).2 := by
  have hmax : db.sb.maxSlots = g.n := h.maxSlots
  have hi : i < g.n := hmax ▸ hacc.1
  rw [efFreeSlot_of_accepts h hacc] at herr ⊢
  obtain ⟨db₁, heq, hunch, hb, hcore⟩ : ∃ db₁, (if ((db.view g).slots i).status = statusUsed then
      (db.setError .ok).efBlobReleaseChain i (g.ptr i) else (.ok, db.setError .ok)) = (.ok, db₁) ∧
      FreeUnchanged db db₁ ∧ (db₁.view g).Bound g ∧ db₁.core = db.core := by
    split_ifs with hused
    · obtain ⟨db₁, heq, hunch, hb, hcore⟩ :=
        @freeUnchanged_of_unlinked g (db.setError .ok) i h hi (hlink hused)
      exact ⟨db₁, heq, (freeUnchanged_setError db .ok).trans hunch, hb, hcore⟩
    · exact ⟨_, rfl, freeUnchanged_setError db .ok, h, rfl⟩
  rw [heq] at herr ⊢
  simp only at herr ⊢
  have hseg₁ : db₁.txnActive = true → g.undoBase ≤ db₁.undoLogBase := by
    rw [show db₁.txnActive = db.txnActive from congrArg Core.txnActive hcore,
      show db₁.undoLogBase = db.undoLogBase from congrArg Core.undoLogBase hcore]
    exact hseg
  obtain ⟨seg, hview₂, hindex₂⟩ := recordFree_spec hb hseg₁ i ((db.view g).slots i).nextOffset
    ((db.view g).slots i).status
  generalize db₁.recordFree i ((db.view g).slots i).nextOffset ((db.view g).slots i).status = db₂
    at herr hview₂ hindex₂ ⊢
  have hb₂ : (db₂.view g).Bound g := by
    rw [hview₂]
    exact hb.congr rfl rfl rfl rfl
  have hunch₂ : FreeUnchanged db₁ db₂ := by
    refine freeUnchanged_of_view hb hb₂ ?_ (fun j _ => ?_) hindex₂
    · have hsb : db₂.sb = db₁.sb := congrArg View.sb hview₂
      rw [hsb]
      exact ⟨rfl, rfl⟩
    · rw [hview₂]
      exact ⟨rfl, rfl, rfl⟩
  exact (hunch.trans hunch₂).trans (freeUnchanged_of_return hb₂ herr)

/-- **With a link** a release that fails in the chain has cleared it. -/
lemma efFreeSlot_loses_link (h : (db.view g).Bound g) (hacc : db.freeAccepts i)
    (hused : ((db.view g).slots i).status = statusUsed)
    (hfail : ∀ (db₁ : Db) fuel, db₁.view g = (db.view g).setSlot i
      (Slot.sealed (db.view g).sb.slotCrc i { (db.view g).slots i with nextOffset := 0 }) →
        (releaseChainLoop (fuel + 1) ((db.view g).slots i).nextOffset db₁).1 ≠ .ok ∧
          ∀ a, ((db₁.view g).slots a).status ≠ statusOverflow →
            ((releaseChainLoop (fuel + 1) ((db.view g).slots i).nextOffset db₁).2.view g).slots a =
              (db₁.view g).slots a) :
    (db.efFreeSlot i).1 ≠ .ok ∧ (((db.efFreeSlot i).2.view g).slots i).nextOffset = 0 := by
  have hmax : db.sb.maxSlots = g.n := h.maxSlots
  have hi : i < g.n := hmax ▸ hacc.1
  rw [efFreeSlot_of_accepts h hacc, if_pos hused]
  have hview := @view_unlinked g (db.setError .ok) i hi
  have hslot : ((db.setError .ok).slotAt (g.ptr i)).nextOffset = ((db.view g).slots i).nextOffset :=
    congrArg Slot.nextOffset (slotAt_eq db hi)
  unfold efBlobReleaseChain
  simp only
  rw [hslot]
  generalize ((db.setError .ok).setNext (g.ptr i) 0).efSlotHeaderCrcStore i (g.ptr i) = db₁
    at hview ⊢
  obtain ⟨fuel, hfuel⟩ : ∃ k, 17 * (db₁.sb.maxSlots + 1) = k + 1 :=
    ⟨17 * (db₁.sb.maxSlots + 1) - 1, by omega⟩
  rw [hfuel]
  obtain ⟨herr, hkept⟩ := hfail db₁ fuel hview
  have hself : ((db₁.view g).slots i).status = statusUsed ∧ ((db₁.view g).slots i).nextOffset = 0 := by
    rw [hview, View.setSlot_slots, Function.update_self, Slot.sealed_status, Slot.sealed_nextOffset]
    exact ⟨hused, rfl⟩
  have hsame := hkept i (by rw [hself.1]; simp)
  generalize releaseChainLoop (fuel + 1) ((db.view g).slots i).nextOffset db₁ = r at herr hsame ⊢
  obtain ⟨e, db₂⟩ := r
  have hnext : (((db₂.setError e).view g).slots i).nextOffset = 0 :=
    (congrArg Slot.nextOffset hsame).trans hself.2
  cases e with
  | ok => exact absurd rfl herr
  | _ => exact ⟨fun h0 => (by cases h0), hnext⟩

/-- A call that has lost a link has changed something. -/
lemma not_freeUnchanged_of_next (h : (db.view g).Bound g) (hi : i < g.n)
    (hne : ((db.view g).slots i).nextOffset ≠ 0)
    (hlost : (((db.efFreeSlot i).2.view g).slots i).nextOffset = 0) :
    ¬ FreeUnchanged db (db.efFreeSlot i).2 := by
  intro hunch
  have hmax : db.sb.maxSlots = g.n := h.maxSlots
  have hcap : (db.efFreeSlot i).2.hashCapacity = g.cap :=
    (congrArg Index.cap hunch.index).trans h.cap
  have hnext := hunch.next i (by omega)
  rw [slot_eq hcap hi, slot_eq h.cap hi, hlost] at hnext
  exact hne hnext.symm

/-- **Where no lock is taken** the release of a used slot goes through if its chain comes to its
end. -/
lemma efFreeSlot_of_chainEnds (h : (db.view g).Bound g) (hacc : db.freeAccepts i) (hcap : g.cap = 0)
    (hold : db.sb.schemaVersion < schemaVersion)
    (hseg : db.txnActive = true → g.undoBase ≤ db.undoLogBase)
    (hused : ((db.view g).slots i).status = statusUsed) (hends : db.ChainEnds i) :
    (db.efFreeSlot i).1 = .ok := by
  have hmax : db.sb.maxSlots = g.n := h.maxSlots
  have hi : i < g.n := hmax ▸ hacc.1
  obtain ⟨l, hnd, hpath⟩ := (chainEnds_iff h hi).mp hends
  rw [efFreeSlot_of_accepts h hacc, if_pos hused]
  have hview := @view_unlinked g (db.setError .ok) i hi
  have hslot : ((db.setError .ok).slotAt (g.ptr i)).nextOffset = ((db.view g).slots i).nextOffset :=
    congrArg Slot.nextOffset (slotAt_eq db hi)
  unfold efBlobReleaseChain
  simp only
  rw [hslot]
  generalize ((db.setError .ok).setNext (g.ptr i) 0).efSlotHeaderCrcStore i (g.ptr i) = db₁
    at hview ⊢
  have hview : db₁.view g = (db.view g).setSlot i
      (Slot.sealed (db.view g).sb.slotCrc i { (db.view g).slots i with nextOffset := 0 }) := hview
  have hb₁ : (db₁.view g).Bound g := by
    rw [hview, View.bound_setSlot]
    exact h
  have hfields : (db₁.view g).sb = (db.view g).sb ∧ (db₁.view g).core = (db.view g).core := by
    rw [hview]
    exact ⟨rfl, rfl⟩
  have hpath₁ : View.OverflowPath g (db₁.view g) ((db.view g).slots i).nextOffset l 0 := by
    rw [hview]
    exact overflowPath_unlinked (by rw [hused]; simp) hpath
  have hmax₁ : db₁.sb.maxSlots = g.n := hb₁.maxSlots
  have hlen := length_le_of_overflowPath hnd hpath
  have hold₁ : db₁.sb.schemaVersion < schemaVersion := by
    rw [show db₁.sb = db.sb from hfields.1]
    exact hold
  have hok := @releaseChainLoop_of_path g db₁ (17 * (db₁.sb.maxSlots + 1)) _ l hb₁ hcap hold₁ hnd
    hpath₁ (by omega)
  obtain ⟨hb₂, hold₂, hbase₂⟩ := @releaseChainLoop_inv g db₁ (17 * (db₁.sb.maxSlots + 1))
    ((db.view g).slots i).nextOffset _ releaseInv_fixed hcap ⟨hb₁, hold₁, by rw [hfields.2]; exact hseg⟩
  generalize releaseChainLoop (17 * (db₁.sb.maxSlots + 1)) ((db.view g).slots i).nextOffset db₁ = r
    at hok hb₂ hold₂ hbase₂ ⊢
  obtain ⟨e, db₂⟩ := r
  have he : e = .ok := hok
  subst he
  simp only at hb₂ hold₂ hbase₂ ⊢
  obtain ⟨seg, hview₃, -⟩ := recordFree_spec hb₂ hbase₂ i ((db.view g).slots i).nextOffset
    ((db.view g).slots i).status
  generalize db₂.recordFree i ((db.view g).slots i).nextOffset ((db.view g).slots i).status = db₃
    at hview₃ ⊢
  have hw₃ : db₃.readonly = false := (congrArg (fun v => v.core.readonly) hview₃).trans hb₂.writable
  have hold₃ : db₃.sb.schemaVersion < schemaVersion := by
    rw [show db₃.sb = db₂.sb from congrArg View.sb hview₃]
    exact hold₂
  rw [(efReturnSlotToPool_fst (g := g) hw₃ i (g.ptr i)).1]
  unfold efIndexWriteBegin
  rw [if_pos hold₃]

/-- **A failed release changes nothing** exactly if there was no link to release. The outcomes of
the lock attempts are those of the list `c`, then of the lock byte. -/
theorem efFreeSlot_unchanged_iff (hm : db.Mapped)
    (hseg : db.txnActive = true → db.slotsBase + 64 * db.sb.maxSlots ≤ db.undoLogBase)
    (hold : db.readonly = false → db.sb.schemaVersion < schemaVersion → db.hashCapacity = 0) :
    (∀ c, ((db.withContention c).efFreeSlot i).1 ≠ .ok →
        FreeUnchanged db ((db.withContention c).efFreeSlot i).2) ↔
      ¬ (db.readonly = false ∧ db.freeAccepts i ∧ (db.slot i).status = statusUsed ∧
          (db.slot i).nextOffset ≠ 0) ∨
        db.sb.schemaVersion < schemaVersion ∧ db.ChainEnds i := by
  have hsame : ∀ c, FreeUnchanged db (db.withContention c) := freeUnchanged_withContention db
  by_cases hacc : db.readonly = false ∧ db.freeAccepts i
  swap
  · refine ⟨fun _ => .inl fun h => hacc ⟨h.1, h.2.1⟩, fun _ c _ => ?_⟩
    obtain ⟨e, heq⟩ := @efFreeSlot_refused (db.withContention c) i ⟨hm.inFile, hm.bound⟩ hacc
    rw [heq]
    exact (hsame c).trans (freeUnchanged_setError _ e)
  obtain ⟨hw, hacc⟩ := hacc
  obtain ⟨g, h⟩ := hm.geometry hw
  have hmax : db.sb.maxSlots = g.n := h.maxSlots
  have hi : i < g.n := hmax ▸ hacc.1
  have hb : ∀ c, ((db.withContention c).view g).Bound g := fun c => h.congr rfl rfl rfl rfl
  have hundo : db.txnActive = true → g.undoBase ≤ db.undoLogBase := fun hact => by
    have hle := hseg hact
    have hbase := slotsBase_eq_base h.cap
    unfold Geometry.undoBase
    omega
  rw [slot_eq h.cap hi]
  by_cases hlink : ((db.view g).slots i).status = statusUsed ∧ ((db.view g).slots i).nextOffset ≠ 0
  swap
  · refine ⟨fun _ => .inl fun h => hlink ⟨h.2.2.1, h.2.2.2⟩, fun _ c herr => ?_⟩
    refine (hsame c).trans (efFreeSlot_unlinked (hb c) hacc hundo (fun hused => ?_) herr)
    exact not_not.mp fun hne => hlink ⟨hused, hne⟩
  obtain ⟨hused, hne⟩ := hlink
  have hcond : (¬ (db.readonly = false ∧ db.freeAccepts i ∧ ((db.view g).slots i).status = statusUsed ∧
      ((db.view g).slots i).nextOffset ≠ 0) ∨ db.sb.schemaVersion < schemaVersion ∧ db.ChainEnds i) ↔
        db.sb.schemaVersion < schemaVersion ∧ db.ChainEnds i :=
    or_iff_right fun hn => hn ⟨hw, hacc, hused, hne⟩
  rw [hcond]
  -- a release that fails in the chain shows
  have hshow : ∀ c, ((db.withContention c).efFreeSlot i).1 ≠ .ok →
      ((((db.withContention c).efFreeSlot i).2.view g).slots i).nextOffset = 0 →
        ¬ ∀ c, ((db.withContention c).efFreeSlot i).1 ≠ .ok →
          FreeUnchanged db ((db.withContention c).efFreeSlot i).2 := by
    intro c herr hlost hall
    refine not_freeUnchanged_of_next (hb c) hi hne hlost ?_
    obtain ⟨h₁, h₂, h₃, h₄, h₅, h₆, h₇⟩ := hall c herr
    exact ⟨h₁, h₂, h₃, h₄, h₅, h₆, h₇⟩
  by_cases hs : db.sb.schemaVersion < schemaVersion
  · have hcap : g.cap = 0 := h.cap.symm.trans (hold hw hs)
    refine ⟨fun hall => ⟨hs, ?_⟩, fun hends c herr => absurd ?_ herr⟩
    · by_contra hends
      have hres := efFreeSlot_loses_link (hb []) hacc hused fun db₁ fuel hview => ?_
      · exact hshow [] hres.1 hres.2 hall
      · have hview₁ : db₁.view g = ((db.withContention []).view g).setSlot i
            (Slot.sealed (db.view g).sb.slotCrc i { (db.view g).slots i with nextOffset := 0 }) := hview
        have hb₁ : (db₁.view g).Bound g := by
          rw [hview₁, View.bound_setSlot]
          exact hb []
        refine ⟨fun hok => hends ?_, fun a ha =>
          (releaseChainLoop_inv releaseInv_kept hcap ⟨hb₁, fun _ _ => rfl⟩).2 a ha⟩
        obtain ⟨l, hnd, hpath⟩ := overflowPath_of_released hb₁ hcap hok
        rw [hview₁] at hpath
        refine (chainEnds_iff h hi).mpr ⟨l, hnd, (overflowPath_setSlot ?_ ?_ hpath).1⟩
        · rw [show ((db.withContention []).view g).slots i = (db.view g).slots i from rfl, hused]
          simp
        · rw [Slot.sealed_status, hused]
          simp
    · exact efFreeSlot_of_chainEnds (hb c) hacc hcap hs hundo hused hends.2
  · refine ⟨fun hall => ?_, fun hends => absurd hends.1 hs⟩
    have hres := efFreeSlot_loses_link (hb [true]) hacc hused fun db₁ fuel hview => ?_
    · exact absurd hall (hshow [true] hres.1 hres.2)
    · have hb₁ : (db₁.view g).Bound g := by
        rw [hview, View.bound_setSlot]
        exact hb [true]
      have hc₁ : db₁.env.contention = [true] := congrArg (fun v => v.core.contention) hview
      have hs₁ : ¬ db₁.sb.schemaVersion < schemaVersion := by
        rw [show db₁.sb = db.sb from congrArg View.sb hview]
        exact hs
      exact releaseChainLoop_of_contended hb₁ hc₁ hs₁ hne

/-- A used slot without a link, in a database of two slots. -/
theorem efFreeSlot_unchanged_of_two :
    let db := (newMemory 2 0).efAllocSlot.2.2
    ∀ c, ((db.withContention c).efFreeSlot 0).1 ≠ .ok →
      FreeUnchanged db ((db.withContention c).efFreeSlot 0).2 :=
  efFreeSlot_unchanged_iff (by decide +kernel) (by decide +kernel) (by decide +kernel) |>.mpr
    (.inl (by decide +kernel))

/-- A used slot with a link to another used slot: the release fails, and the link is gone. -/
theorem efFreeSlot_clears_link :
    let db := ((newMemory 2 0).efAllocSlot.2.2.efAllocSlot.2.2.efSetNextOffset 0 128).2
    (db.efFreeSlot 0).1 = .notFound ∧ (db.slot 0).nextOffset = 128 ∧
      ((db.efFreeSlot 0).2.slot 0).nextOffset = 0 ∧ ¬ FreeUnchanged db (db.efFreeSlot 0).2 := by
  have hrun : let db := ((newMemory 2 0).efAllocSlot.2.2.efAllocSlot.2.2.efSetNextOffset 0 128).2
      (db.efFreeSlot 0).1 = .notFound ∧ (db.slot 0).nextOffset = 128 ∧
        ((db.efFreeSlot 0).2.slot 0).nextOffset = 0 ∧ 0 < db.sb.maxSlots := by decide +kernel
  obtain ⟨h₁, h₂, h₃, h₄⟩ := hrun
  refine ⟨h₁, h₂, h₃, fun h => ?_⟩
  have hnext := h.next 0 h₄
  rw [h₂, h₃] at hnext
  cases hnext

end Db

end Endfields.Model
