import Endfields.Spec.FreeList

/-!
# Aborting a transaction of allocations

Two records per allocation: the slot goes back to the head of the free list, and the free count is
taken up again by one. The first is an exact inverse for every shape of the list. The second is
not: from a count of zero it stays at zero.

* `Db.allocRun n`: `n` calls of `ef_alloc_slot`, with their results.
* `Db.freeRun`: how many slots a walk along the free list yields, read off the image.
* **Main result** (`abort_allocs_restores_iff`): an abort restores head, order and count of the free
  list exactly when the calls do not take the count from a positive value down to zero.
-/

namespace Endfields.Model

open Endfields.Lib

namespace Db

/-- `n` calls of `ef_alloc_slot`, with the ids of the successful ones. -/
def allocRun : ℕ → Db → List ℕ × Db
  | 0, db => ([], db)
  | n + 1, db =>
      match db.efAllocSlot with
      | (.ok, i, db') => (i :: (allocRun n db').1, (allocRun n db').2)
      | (_, _, db') => allocRun n db'

/-- How many of `n` slots can be taken along the free list from an offset on. A slot that is met a
second time (`seen`) has lost its link when it was taken first. -/
def freeRun (db : Db) : ℕ → ℕ → List ℕ → ℕ
  | 0, _, _ => 0
  | n + 1, off, seen =>
      match db.efSlotAtOffset off with
      | none => 0
      | some i => if i ∈ seen then 1 else db.freeRun n (db.slot i).nextOffset (i :: seen) + 1

/-- `n` allocations take the free count from a positive value down to zero. -/
def drains (db : Db) (n : ℕ) : Prop :=
  db.sb.indexWriteLock = 0 ∧ 0 < db.sb.freeCount ∧
    db.sb.freeCount ≤ db.freeRun n db.sb.freeListHead []

instance (db : Db) (n : ℕ) : Decidable (db.drains n) :=
  inferInstanceAs (Decidable (_ ∧ _ ∧ _))

end Db

/-! ### Allocations on the view -/

namespace View

variable {g : Geometry}

/-- The slot that the next allocation takes, in an environment without contention. -/
def avail (g : Geometry) (v : View) : Option ℕ :=
  if v.sb.indexWriteLock = 0 then v.freeHead g else none

/-- The slots that `n` allocations take. -/
def takeIds (g : Geometry) : ℕ → View → List ℕ
  | 0, _ => []
  | n + 1, v =>
      match v.avail g with
      | none => []
      | some i => i :: takeIds g n (v.popSlot true i)

/-- Two views have the same free list: its lock, its head, its links and its count; `z` says that
the count of the first is zero instead. -/
structure SameList (g : Geometry) (z : Bool) (v w : View) : Prop where
  lock : v.sb.indexWriteLock = w.sb.indexWriteLock
  head : v.sb.freeListHead = w.sb.freeListHead
  next : ∀ i, i < g.n → (v.slots i).nextOffset = (w.slots i).nextOffset
  count : v.sb.freeCount = if z then 0 else w.sb.freeCount

lemma avail_eq_some {v : View} {i : ℕ} (h : v.avail g = some i) :
    v.sb.indexWriteLock = 0 ∧ v.freeHead g = some i := by
  unfold avail at h
  split_ifs at h with hlock
  exact ⟨hlock, h⟩

lemma SameList.avail {v w : View} (h : SameList g false v w) : v.avail g = w.avail g := by
  have hcount : v.sb.freeCount = w.sb.freeCount := h.count
  unfold View.avail View.freeHead
  rw [h.lock, h.head, hcount]

lemma SameList.popSlot {v w : View} (h : SameList g false v w) {c : Bool} {i : ℕ} (hi : i < g.n) :
    SameList g false (v.popSlot c i) (w.popSlot c i) where
  lock := h.lock
  head := h.next i hi
  next := by
    intro j hj
    rw [popSlot_next, popSlot_next, h.next j hj]
  count := by
    rw [popSlot_count, popSlot_count, h.count]
    rfl

/-- The slots taken depend on the free list alone. -/
lemma SameList.takeIds {v w : View} (n : ℕ) (h : SameList g false v w) :
    View.takeIds g n v = View.takeIds g n w := by
  induction n generalizing v w with
  | zero => rfl
  | succ n ih =>
      unfold View.takeIds
      rw [h.avail]
      rcases hw : w.avail g with _ | i
      · rfl
      · simp only
        rw [ih (h.popSlot (freeHead_lt (avail_eq_some hw).2))]

/-- **One allocation.** Its two records lead back to the same free list, unless they meet a count of
zero: then the count stays zero. -/
lemma reverses_popSlot {v : View} {i : ℕ} (z : Bool) (crc : ℕ) (hhead : v.freeHead g = some i)
    (hcount : v.sb.freeCount < u32) (hz : z = false → 1 < v.sb.freeCount) :
    Reverses (undo g) (SameList g z) v [.alloc i crc, .freeCount (-1)] (v.popSlot true i) := by
  intro x hx
  have hpos : v.sb.freeCount ≠ 0 := freeHead_count hhead
  have hxcount := hx.count
  rw [popSlot_count] at hxcount
  refine ⟨hx.lock, (freeHead_ptr hhead).symm, ?_, ?_⟩
  · intro j hj
    have hxj := hx.next j hj
    rw [popSlot_next] at hxj
    simp only [List.foldr_cons, List.foldr_nil, undo, setSlot_slots, Function.update_apply,
      setSb_slots]
    by_cases hji : j = i
    · rw [if_pos hji, hji]
      exact hx.head
    · rw [if_neg hji] at hxj ⊢
      exact hxj
  · show (if (-1 : ℤ) < 0 ∧ x.sb.freeCount < (- -1 : ℤ).toNat % u32 then 0
      else (((x.sb.freeCount : ℤ) - -1) % (u32 : ℤ)).toNat) = _
    cases z with
    | true =>
        simp only [if_true] at hxcount ⊢
        rw [hxcount]
        rfl
    | false =>
        have hz := hz rfl
        simp only [Bool.false_eq_true, if_false] at hxcount ⊢
        rw [hxcount, if_neg (by simp only [u32]; omega)]
        simp only [u32] at hcount ⊢
        omega

end View

/-! ### Runs of allocations -/

namespace Db

variable {g : Geometry} {db : Db}

/-- Without contention an allocation takes the available slot. -/
lemma efAllocSlot_quiet (h : (db.view g).Ok g) (hq : db.env.contention = []) {rs : List SlotRec}
    (hlog : (db.view g).LogIs g rs) :
    let r := db.efAllocSlot
    ((db.view g).avail g = none ∧ r.1 ≠ .ok ∧ r.2.2.view g = db.view g) ∨
      ∃ i, (db.view g).avail g = some i ∧ r.1 = .ok ∧ r.2.1 = i ∧
        (db.txnActive = false → r.2.2.view g = (db.view g).popSlot true i) ∧
        (db.txnActive = true → rs.length + 2 ≤ undoLogDefaultSlots →
          ∃ seg, r.2.2.view g = ((db.view g).popSlot true i).setSeg seg ∧
            (r.2.2.view g).LogIs g (rs ++
              [.alloc i ((db.view g).allocated true i).headerCrc, .freeCount (-1)])) := by
  have htick : (db.view g).tick = db.view g := View.tick_of_quiet hq
  have hspec := efAllocSlotEx_spec h true hlog
  rw [htick] at hspec
  rcases hspec with ⟨herr, hview, hnone⟩ | ⟨i, hhead, hlock, hok, hid, hout, hin⟩
  · refine .inl ⟨?_, herr, hview⟩
    unfold View.avail
    split_ifs with hlock
    · exact hnone hlock hq
    · rfl
  · refine .inr ⟨i, ?_, hok, hid, hout, hin⟩
    unfold View.avail
    rw [if_pos hlock]
    exact hhead

/-- A run of allocations outside a transaction takes the slots of `takeIds`. -/
lemma allocRun_ids (n : ℕ) (h : (db.view g).Ok g) (hq : db.env.contention = [])
    (hout : db.txnActive = false) {rs : List SlotRec} (hlog : (db.view g).LogIs g rs) :
    (allocRun n db).1 = (db.view g).takeIds g n := by
  induction n generalizing db with
  | zero => rfl
  | succ n ih =>
      unfold allocRun View.takeIds
      rcases efAllocSlot_quiet h hq hlog with ⟨hnone, herr, hview⟩ | ⟨i, hsome, hok, hid, hpop, -⟩
      · rcases hr : db.efAllocSlot with ⟨e, j, db'⟩
        rw [hr] at herr hview
        have hcore : db'.core = db.core := congrArg View.core hview
        have hrest : (allocRun n db').1 = [] := by
          rw [ih (by rw [hview]; exact h) ((congrArg Core.contention hcore).trans hq)
            ((congrArg Core.txnActive hcore).trans hout) (by rw [hview]; exact hlog), hview]
          cases n with
          | zero => rfl
          | succ n => rw [View.takeIds, hnone]
        rw [hnone]
        cases e <;> first | exact absurd rfl herr | exact hrest
      · rcases hr : db.efAllocSlot with ⟨e, j, db'⟩
        rw [hr] at hok hid hpop
        simp only at hok hid hpop
        subst hok hid
        have hview := hpop hout
        have hcore : db'.core = db.core := congrArg View.core hview
        rw [hsome]
        simp only
        rw [ih (by rw [hview]; exact h.congr rfl rfl rfl)
          ((congrArg Core.contention hcore).trans hq)
          ((congrArg Core.txnActive hcore).trans hout) (by rw [hview]; exact hlog.congr rfl), hview]

/-- **A run of allocations inside a transaction** takes the slots of `takeIds`, counts them off the
free count, and its records lead back: to the same free list when the count stays positive, and to
the same list with a count of zero otherwise. -/
lemma allocRun_reverses (n : ℕ) (h : (db.view g).Ok g) (hq : db.env.contention = [])
    (hact : db.txnActive = true) {rs : List SlotRec} (hlog : (db.view g).LogIs g rs)
    (hroom : rs.length + 2 * (allocRun n db).1.length ≤ undoLogDefaultSlots) :
    let ids := (db.view g).takeIds g n
    let w := (allocRun n db).2.view g
    (allocRun n db).1 = ids ∧ w.Ok g ∧ w.core = (db.view g).core ∧
      w.sb.freeCount = (db.view g).sb.freeCount - ids.length ∧
      ∃ rs', w.LogIs g (rs ++ rs') ∧
        ∀ z : Bool, (z = false → ids ≠ [] → ids.length < (db.view g).sb.freeCount) →
          Reverses (View.undo g) (View.SameList g z) (db.view g) rs' w := by
  induction n generalizing db rs with
  | zero =>
      exact ⟨rfl, h, rfl, rfl, [], by simpa [allocRun] using hlog,
        fun z _ => Reverses.refl _⟩
  | succ n ih =>
      unfold allocRun at hroom ⊢
      simp only [View.takeIds]
      rcases efAllocSlot_quiet h hq hlog with ⟨hnone, herr, hview⟩ | ⟨i, hsome, hok, hid, -, hpop⟩
      · rcases hr : db.efAllocSlot with ⟨e, j, db'⟩
        rw [hr] at herr hview hroom
        simp only at herr hview
        have hcore : db'.core = db.core := congrArg View.core hview
        have hroom' : rs.length + 2 * (allocRun n db').1.length ≤ undoLogDefaultSlots := by
          cases e <;> first | exact absurd rfl herr | exact hroom
        have hrest := ih (by rw [hview]; exact h) ((congrArg Core.contention hcore).trans hq)
          ((congrArg Core.txnActive hcore).trans hact) (by rw [hview]; exact hlog) hroom'
        have hids : (db.view g).takeIds g n = [] := by
          cases n with
          | zero => rfl
          | succ n => rw [View.takeIds, hnone]
        rw [hview, hids] at hrest
        rw [hnone]
        cases e <;> first | exact absurd rfl herr | exact hrest
      · rcases hr : db.efAllocSlot with ⟨e, j, db'⟩
        rw [hr] at hok hid hpop hroom
        simp only at hok hid hpop hroom
        subst hok hid
        simp only [List.length_cons] at hroom
        obtain ⟨seg, hview, hlog'⟩ := hpop hact (by omega)
        have hcore : db'.core = db.core := congrArg View.core hview
        have hcount := freeCount_lt g db
        obtain ⟨-, hhead⟩ := View.avail_eq_some hsome
        obtain ⟨hids, hok', hcore', hcount', rs', hlog'', hrev⟩ := ih
          (by rw [hview, View.ok_setSeg]; exact h.congr rfl rfl rfl)
          ((congrArg Core.contention hcore).trans hq)
          ((congrArg Core.txnActive hcore).trans hact) hlog'
          (by simp only [List.length_append, List.length_cons, List.length_nil]; omega)
        have hsame : (db'.view g).takeIds g n =
            ((db.view g).popSlot true j).takeIds g n := by
          rw [hview]
          exact View.SameList.takeIds n ⟨rfl, rfl, fun _ _ => rfl, rfl⟩
        rw [hsame] at hids hcount' hrev
        have hc : (db'.view g).sb.freeCount = (db.view g).sb.freeCount - 1 := by rw [hview]; rfl
        rw [hc] at hcount' hrev
        rw [hsome]
        simp only [List.length_cons]
        refine ⟨by rw [hids], hok', hcore'.trans (by rw [hview]; rfl), by omega,
          [.alloc j ((db.view g).allocated true j).headerCrc, .freeCount (-1)] ++ rs', ?_, ?_⟩
        · rw [← List.append_assoc]
          exact hlog''
        · intro z hz
          have hlast := View.reverses_popSlot z ((db.view g).allocated true j).headerCrc hhead hcount
            fun hz' => by
              have := hz hz' (by simp)
              omega
          have hrest := hrev z fun hz' hne => by
            have := hz hz' (by simp)
            omega
          refine hlast.trans fun x hx => ?_
          have hx' := hrest x hx
          rw [hview] at hx'
          exact ⟨hx'.lock, hx'.head, hx'.next, hx'.count⟩

/-! ### The walk along the free list -/

/-- The number of slots taken is read off the image: the free count and the walk along the list
bound it. -/
lemma length_takeIds (h : (db.view g).Ok g) (n : ℕ) (w : View) (seen : List ℕ)
    (hlock : w.sb.indexWriteLock = 0)
    (hseen : ∀ j, (w.slots j).nextOffset =
      if j ∈ seen then 0 else ((db.view g).slots j).nextOffset) :
    (w.takeIds g n).length = min w.sb.freeCount (db.freeRun n w.sb.freeListHead seen) := by
  induction n generalizing w seen with
  | zero => simp [View.takeIds, freeRun]
  | succ n ih =>
      unfold View.takeIds freeRun View.avail View.freeHead
      rw [if_pos hlock, efSlotAtOffset_eq h.toBound]
      by_cases hcount : w.sb.freeCount = 0
      · simp [hcount]
      rw [if_neg hcount]
      rcases hid : g.idOf w.sb.freeListHead with _ | i
      · simp
      have hi := ((g.idOf_eq_some_iff _ _).mp hid).1
      have hnext : ∀ j, ((w.popSlot true i).slots j).nextOffset =
          if j ∈ i :: seen then 0 else ((db.view g).slots j).nextOffset := by
        intro j
        rw [View.popSlot_next, hseen j]
        by_cases hji : j = i
        · simp [hji]
        · simp [hji]
      have hrest := ih (w.popSlot true i) (i :: seen) hlock hnext
      rw [View.popSlot_count, View.popSlot_head, hseen i] at hrest
      simp only [List.length_cons]
      by_cases hmem : i ∈ seen
      · -- the link of a slot taken before is gone, so the walk ends here
        rw [if_pos hmem] at hrest ⊢
        have hend : db.freeRun n 0 (i :: seen) = 0 := by
          cases n with
          | zero => rfl
          | succ n => rw [freeRun, efSlotAtOffset_eq h.toBound, g.idOf_zero]
        rw [hend] at hrest
        omega
      · rw [if_neg hmem] at hrest ⊢
        rw [slot_eq h.cap hi]
        omega

/-- Draining, in terms of the slots taken. -/
lemma drains_iff (h : (db.view g).Ok g) (n : ℕ) :
    db.drains n ↔ (db.view g).takeIds g n ≠ [] ∧
      (db.view g).sb.freeCount ≤ ((db.view g).takeIds g n).length := by
  have hdef : db.drains n ↔ (db.view g).sb.indexWriteLock = 0 ∧ 0 < (db.view g).sb.freeCount ∧
      (db.view g).sb.freeCount ≤ db.freeRun n (db.view g).sb.freeListHead [] := Iff.rfl
  rw [hdef, ← List.length_pos_iff]
  by_cases hlock : (db.view g).sb.indexWriteLock = 0
  · rw [length_takeIds h n _ [] hlock fun j => by simp]
    omega
  · have hids : (db.view g).takeIds g n = [] := by
      cases n with
      | zero => rfl
      | succ n => rw [View.takeIds, View.avail, if_neg hlock]
    simp [hids, hlock]

/-! ### The abort -/

/-- What the abort of a run of allocations leaves: the same free list, with a count of zero if the
run drained the pool. -/
lemma allocs_aborted (h : (db.view g).Ok g) (hq : db.env.contention = [])
    (hbegin : db.efTxnBegin.1 = .ok) (n : ℕ)
    (hfit : 2 * (allocRun n db.efTxnBegin.2).1.length ≤ undoLogDefaultSlots) :
    ∃ db', (allocRun n db.efTxnBegin.2).2.efTxnAbort = (.ok, db') ∧
      (allocRun n db.efTxnBegin.2).1 = (db.view g).takeIds g n ∧ (db'.view g).Ok g ∧
      (allocRun n db').1 = (db'.view g).takeIds g n ∧
      View.SameList g (decide (db.drains n)) (db'.view g) (db.view g) := by
  obtain ⟨-, seg, hseg, hview₁⟩ := efTxnBegin_of_ok h hbegin
  rw [View.tick_of_quiet hq] at hview₁
  set db₁ := db.efTxnBegin.2
  have hcore₁ : db₁.core = ((db.view g).begun seg).core := congrArg View.core hview₁
  have hact₁ : db₁.txnActive = true := congrArg Core.txnActive hcore₁
  have hq₁ : db₁.env.contention = [] := (congrArg Core.contention hcore₁).trans hq
  have hsame₁ : View.SameList g false (db₁.view g) (db.view g) := by
    rw [hview₁]
    exact ⟨rfl, rfl, fun _ _ => rfl, rfl⟩
  have hcount₁ : (db₁.view g).sb.freeCount = (db.view g).sb.freeCount := hsame₁.count
  obtain ⟨hids, hok₂, hcore₂, hcount₂, rs, hlog₂, hrev⟩ := allocRun_reverses n
    (by rw [hview₁]; exact h.begun) hq₁ hact₁ (View.LogIs.nil (by rw [hview₁]; exact hseg))
    (by simpa using hfit)
  set db₂ := (allocRun n db₁).2
  rw [hsame₁.takeIds n] at hids hcount₂ hrev
  rw [hcount₁] at hcount₂ hrev
  -- the count of the final view is zero exactly when the run drained the pool
  have hself : View.SameList g (decide (db.drains n)) (db₂.view g) (db₂.view g) := by
    refine ⟨rfl, rfl, fun _ _ => rfl, ?_⟩
    by_cases hd : db.drains n
    · have hle := ((drains_iff h n).mp hd).2
      simp only [hd, decide_true, if_true]
      omega
    · simp [hd]
  have hrev := hrev (decide (db.drains n)) fun hd hne => by
    have hd' := mt (drains_iff h n).mpr (of_decide_eq_false hd)
    by_contra hge
    exact hd' ⟨hne, by omega⟩
  have hact₂ : db₂.txnActive = true := (congrArg Core.txnActive hcore₂).trans hact₁
  obtain ⟨db₃, y, seg₃, habort, hoky, hcorey, hback, hseg₃, hview₃⟩ :=
    efTxnAbort_reverses hok₂ hact₂ hlog₂ hrev hself
  have hok₃ : (db₃.view g).Ok g := by
    rw [hview₃]
    exact hoky.ended
  have hcore₃ : db₃.core = (y.ended seg₃).core := congrArg View.core hview₃
  have hq₃ : db₃.env.contention = [] := by
    have hc : db₃.env.contention = y.core.contention := congrArg Core.contention hcore₃
    rw [hc, hcorey, hcore₂]
    exact hq₁
  refine ⟨db₃, habort, hids, hok₃, ?_, ?_⟩
  · exact allocRun_ids n hok₃ hq₃ (congrArg Core.txnActive hcore₃)
      (View.LogIs.nil (by rw [hview₃]; exact hseg₃))
  · rw [hview₃]
    exact ⟨hback.lock.trans hsame₁.lock, hback.head.trans hsame₁.head,
      fun i hi => (hback.next i hi).trans (hsame₁.next i hi), by rw [← hcount₁]; exact hback.count⟩

/-- **Allocations are undone exactly when they do not drain the pool.** For every handle with the
layout an open gives it and every number of allocations whose records fit the log, the abort brings
back the head, the order and the count of the free list, and the same allocations succeed again,
if and only if the allocations do not take a positive free count down to zero. -/
theorem abort_allocs_restores_iff (hl : db.Layout) (hq : db.env.contention = [])
    (hbegin : db.efTxnBegin.1 = .ok) (n : ℕ)
    (hfit : 2 * (allocRun n db.efTxnBegin.2).1.length ≤ undoLogDefaultSlots) :
    let run := allocRun n db.efTxnBegin.2
    let aborted := run.2.efTxnAbort
    (aborted.1 = .ok ∧
        aborted.2.sb.freeListHead = db.sb.freeListHead ∧
        (∀ k, aborted.2.freeChain k aborted.2.sb.freeListHead =
          db.freeChain k db.sb.freeListHead) ∧
        aborted.2.sb.freeCount = db.sb.freeCount ∧
        (allocRun n aborted.2).1 = run.1) ↔
      ¬ db.drains n := by
  obtain ⟨db', habort, hids, hok', hids', hsame⟩ := allocs_aborted hl.ok hq hbegin n hfit
  simp only [habort, hids, hids']
  by_cases hd : db.drains n
  · -- the count has reached zero and stays there
    have hpos : 0 < db.sb.freeCount := hd.2.1
    have hzero : db'.sb.freeCount = 0 := by
      have hc := hsame.count
      rw [decide_eq_true hd, if_pos rfl] at hc
      exact hc
    refine iff_of_false ?_ (not_not.mpr hd)
    rintro ⟨-, -, -, hcount, -⟩
    omega
  · rw [decide_eq_false hd] at hsame
    have hhead : db'.sb.freeListHead = db.sb.freeListHead := hsame.head
    refine iff_of_true ⟨trivial, hhead, ?_, hsame.count, hsame.takeIds n⟩ hd
    intro k
    rw [hhead]
    exact freeChain_congr hl.ok.toBound hok'.toBound hsame.next k _

/-- One allocation from a pool of two slots is undone. -/
theorem abort_alloc_of_two :
    let db := newMemory 2 0
    let run := allocRun 1 db.efTxnBegin.2
    run.1 = [0] ∧ ¬ db.drains 1 ∧ run.2.efTxnAbort.2.sb.freeCount = db.sb.freeCount := by
  have hdrains : ¬ (newMemory 2 0).drains 1 := by decide +kernel
  have hback := (abort_allocs_restores_iff (by decide +kernel : (newMemory 2 0).Layout)
    (by decide +kernel) (by decide +kernel) 1 (by decide +kernel)).mpr hdrains
  exact ⟨by decide +kernel, hdrains, hback.2.2.2.1⟩

/-- The allocation of the only slot is not undone: the free count stays zero, and the slot on the
list cannot be allocated again. -/
theorem abort_draining_alloc :
    let db := newMemory 1 0
    let run := allocRun 1 db.efTxnBegin.2
    let aborted := run.2.efTxnAbort
    db.Layout ∧ db.hashCapacity = 0 ∧ db.efTxnBegin.1 = .ok ∧
      2 * run.1.length ≤ undoLogDefaultSlots ∧ aborted.1 = .ok ∧
      aborted.2.sb.freeListHead = db.sb.freeListHead ∧
      ¬ aborted.2.sb.freeCount = db.sb.freeCount ∧
      run.1 = [0] ∧ (allocRun 1 aborted.2).1 = [] := by
  decide +kernel

end Db

end Endfields.Model
