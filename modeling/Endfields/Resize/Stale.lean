import Endfields.Spec.Moves
import Endfields.Spec.Release

/-!
# Releases that move the slots

When the removal of a slot's entry shrinks the table, the slots move towards its new end.
`ef_return_slot_to_pool` then puts the slot on the free list through the pointer it took before: the
list begins with the slot, and another slot, or none, is made `FREE`.

* `View.Endless g v off`: the links from `off` on lead to no end before a slot that is not `FREE`.
* `Geometry.Shrunk g g'`: the same slots behind a smaller table, a whole number of slots earlier.
* **`efReturnSlotToPool_relaid`**: a slot given back through a pointer of an older layout, with or
  without a move.
* `Lost g₀ g v c`: since the layout `g₀` a move has left the free list without an end, at its head
  and at the slot `c`.
* **`releaseChainLoop_lost`**: the rest of a release does not mend that.
-/

namespace Endfields.Model

open Endfields.Lib

namespace View

variable {g g' : Geometry} {v w v' : View} {off i : ℕ}

/-- The links from the offset `off` on lead to no end before they come to a slot that is not
`FREE`. -/
def Endless (g : Geometry) (v : View) (off : ℕ) : Prop :=
  Lib.Endless g.idOf (fun i => (v.slots i).nextOffset) (fun i => (v.slots i).status = statusFree) off

/-- A slot that is not `FREE` is no end. -/
lemma endless_of_busy (hi : i < g.n) (hst : (v.slots i).status ≠ statusFree) :
    v.Endless g (g.ptr i) := by
  refine endless_of_step (P := (· = g.ptr i)) ?_ rfl
  rintro _ rfl
  exact ⟨i, g.idOf_ptr hi, fun h => absurd h hst⟩

/-- The next link, if the slot is `FREE`. -/
lemma endless_of_next (hi : i < g.n) (h : v.Endless g (v.slots i).nextOffset) :
    v.Endless g (g.ptr i) := by
  refine endless_of_step (P := fun off => off = g.ptr i ∨ v.Endless g off) ?_ (.inl rfl)
  rintro off (rfl | hoff)
  · exact ⟨i, g.idOf_ptr hi, fun _ => .inr h⟩
  · obtain ⟨a, hr, hstep⟩ := hoff.step
    exact ⟨a, hr, fun ha => .inr (hstep ha)⟩

/-- Slots with the same statuses and links. -/
lemma Endless.congr (h : v.Endless g off) (hslots : ∀ i, i < g.n →
    (w.slots i).status = (v.slots i).status ∧
      ((v.slots i).status = statusFree → (w.slots i).nextOffset = (v.slots i).nextOffset)) :
    w.Endless g off := by
  refine endless_of_step (P := v.Endless g) (fun off hoff => ?_) h
  obtain ⟨a, hr, hstep⟩ := hoff.step
  obtain ⟨hst, hnext⟩ := hslots a ((g.idOf_eq_some_iff _ _).mp hr).1
  refine ⟨a, hr, fun ha => ?_⟩
  rw [hst] at ha
  show v.Endless g (w.slots a).nextOffset
  rw [hnext ha]
  exact hstep ha

/-- **A slot linked to the head of a list that does not end** is none either, and changes nothing
for the others. -/
lemma Endless.written (h : v.Endless g off) (hhead : v.Endless g v.sb.freeListHead) {x : ℕ}
    (hother : ∀ j, j < g.n → j ≠ x → w.slots j = v.slots j)
    (hx : x < g.n → (w.slots x).nextOffset = v.sb.freeListHead) : w.Endless g off := by
  refine endless_of_step (P := v.Endless g) (fun off hoff => ?_) h
  obtain ⟨a, hr, hstep⟩ := hoff.step
  have ha := ((g.idOf_eq_some_iff _ _).mp hr).1
  refine ⟨a, hr, fun hst => ?_⟩
  show v.Endless g (w.slots a).nextOffset
  by_cases hax : a = x
  · subst hax
    rw [hx ha]
    exact hhead
  · rw [hother a ha hax] at hst ⊢
    exact hstep hst

/-- **The slots in a new layout** have the same lists. -/
lemma Endless.moved {fresh : Bool} (h : v.Endless g off) (hm : Db.MovedSlots g g' v v' fresh)
    (hn : g'.n = g.n) : v'.Endless g' (fixNext g.base g'.base off) := by
  refine endless_of_step
    (P := fun off' => ∃ off, off' = fixNext g.base g'.base off ∧ v.Endless g off) ?_ ⟨off, rfl, h⟩
  rintro _ ⟨off, rfl, hoff⟩
  obtain ⟨a, hr, hstep⟩ := hoff.step
  obtain ⟨ha, rfl⟩ := (g.idOf_eq_some_iff _ _).mp hr
  refine ⟨a, ?_, fun hst => ⟨_, hm.next a ha, hstep ?_⟩⟩
  · rw [fixNext_ptr hn ha]
    exact g'.idOf_ptr (hn ▸ ha)
  · show (v.slots a).status = statusFree
    rw [← hm.status a]
    exact hst

end View

/-! ### Capacities -/

/-- A power of two from 4 on is a multiple of 4. -/
lemma four_dvd_of_and {n : ℕ} (hpow : n &&& (n - 1) = 0) (hn : 4 ≤ n) : 4 ∣ n := by
  by_contra hdvd
  have hdiv : (n - 1) >>> 2 = n >>> 2 := by
    rw [Nat.shiftRight_eq_div_pow, Nat.shiftRight_eq_div_pow]
    omega
  have hshift := Nat.shiftRight_and_distrib (a := n) (b := n - 1) (i := 2)
  rw [hpow, hdiv, Nat.and_self, Nat.zero_shiftRight, Nat.shiftRight_eq_div_pow] at hshift
  omega

/-- The capacity that a shrink goes down to is at least 16.
Source: `ef_index.c`, `ef_index_pick_shrink_capacity` -/
lemma le_shrinkLoop (entries fuel cap : ℕ) : 16 ≤ shrinkLoop entries fuel cap := by
  induction fuel generalizing cap with
  | zero => exact le_rfl
  | succ fuel ih =>
      unfold shrinkLoop
      split_ifs
      · omega
      · omega
      · exact ih _
      · exact le_rfl

/-- A capacity that is picked is at least 16, for a table whose capacity is a power of two.
Source: `ef_index.c`, `ef_index_pick_shrink_capacity` -/
lemma efIndexPickShrinkCapacity_pos {entries cap : ℕ}
    (h : 0 < efIndexPickShrinkCapacity entries cap) :
    16 ≤ efIndexPickShrinkCapacity entries cap ∧ cap &&& (cap - 1) = 0 := by
  have hloop : ∀ c, 0 < (if cap ≤ c then 0 else if entries ≠ 0 ∧ cap ≤ entries * 8 then 0
        else shrinkLoop entries 32 c) →
      16 ≤ if cap ≤ c then 0 else if entries ≠ 0 ∧ cap ≤ entries * 8 then 0
        else shrinkLoop entries 32 c := by
    intro c hc
    split_ifs at hc ⊢ with h1 h2
    · omega
    · omega
    · exact le_shrinkLoop _ _ _
  unfold efIndexPickShrinkCapacity at h ⊢
  by_cases h1 : cap = 0 ∨ cap &&& (cap - 1) ≠ 0
  · rw [if_pos h1] at h
    omega
  rw [if_neg h1] at h ⊢
  by_cases h2 : 0xFFFF < cap
  · rw [if_pos h2] at h
    omega
  rw [if_neg h2] at h ⊢
  rw [not_or, not_not] at h1
  exact ⟨hloop _ h, h1.2⟩

/-! ### Layouts with a smaller table -/

/-- The layout `g'` has the slots of `g` behind the same table or a smaller one, a whole number of
slots earlier. -/
structure Geometry.Shrunk (g g' : Geometry) : Prop where
  n : g'.n = g.n
  le : g'.cap ≤ g.cap
  dvd : 4 ∣ g.cap - g'.cap

namespace Geometry.Shrunk

variable {g g₁ g' : Geometry}

/-- A layout as it is. -/
lemma refl (g : Geometry) : g.Shrunk g := ⟨rfl, le_rfl, by rw [Nat.sub_self]; exact dvd_zero 4⟩

/-- A table made smaller twice. -/
lemma trans (h : g.Shrunk g₁) (h' : g₁.Shrunk g') : g.Shrunk g' := by
  refine ⟨h'.n.trans h.n, h'.le.trans h.le, ?_⟩
  have hsub : g.cap - g'.cap = (g.cap - g₁.cap) + (g₁.cap - g'.cap) := by
    have hle := h.le
    have hle' := h'.le
    omega
  rw [hsub]
  exact dvd_add h.dvd h'.dvd

/-- **A pointer of the old layout** leads to another slot of the new one, or behind all of them,
unless the table is the same. -/
lemma exists_ptr (h : g.Shrunk g') (i : ℕ) : ∃ x, g.ptr i = g'.ptr x ∧ (x = i ↔ g'.cap = g.cap) := by
  obtain ⟨d, hd⟩ := h.dvd
  have hle := h.le
  refine ⟨i + d, ?_, ?_⟩
  · unfold Geometry.ptr Geometry.base
    omega
  · constructor
    · intro hx
      omega
    · intro hcap
      omega

end Geometry.Shrunk

/-- What the removal of a slot's entry leaves of the slots and their lists, with or without a
move. -/
structure View.Relaid (g : Geometry) (v : View) (g' : Geometry) (v' : View) : Prop where
  shrunk : g.Shrunk g'
  bound : v'.Bound g'
  schema : v'.sb.schemaVersion = v.sb.schemaVersion
  status : ∀ i, (v'.slots i).status = (v.slots i).status
  head : v.Endless g v.sb.freeListHead → v'.Endless g' v'.sb.freeListHead
  slot : ∀ i, i < g.n → v.Endless g (g.ptr i) → v'.Endless g' (g'.ptr i)

namespace View.Relaid

variable {g g₁ g' : Geometry} {v v₁ v' : View}

/-- Nothing is moved. -/
lemma of_still (h : v.Bound g) (hst : View.Still v v') : View.Relaid g v g v' := by
  have hsame : ∀ off, v.Endless g off → v'.Endless g off := by
    intro off he
    refine he.congr fun i _ => ?_
    rw [hst.slots]
    exact ⟨rfl, fun _ => rfl⟩
  refine ⟨.refl g, hst.bound h, by rw [hst.sb], fun i => by rw [hst.slots], fun he => ?_,
    fun i _ => hsame _⟩
  rw [hst.sb]
  exact hsame _ he

/-- One removal after the other. -/
lemma trans (h : View.Relaid g v g₁ v₁) (h' : View.Relaid g₁ v₁ g' v') : View.Relaid g v g' v' where
  shrunk := h.shrunk.trans h'.shrunk
  bound := h'.bound
  schema := h'.schema.trans h.schema
  status i := (h'.status i).trans (h.status i)
  head he := h'.head (h.head he)
  slot i hi he := h'.slot i (by rw [h.shrunk.n]; exact hi) (h.slot i hi he)

end View.Relaid

/-- Slot `i` has become the head of the free list, by stores to the place of slot `x`. -/
structure View.PushedAt (g : Geometry) (v : View) (i x : ℕ) (v' : View) : Prop where
  bound : v'.Bound g
  schema : v'.sb.schemaVersion = v.sb.schemaVersion
  head : v'.sb.freeListHead = g.ptr i
  other : ∀ j, j < g.n → j ≠ x → v'.slots j = v.slots j
  link : x < g.n → (v'.slots x).nextOffset = v.sb.freeListHead

namespace View.PushedAt

variable {g : Geometry} {v v' : View} {i x off : ℕ}

/-- Lists that do not end stay so, if the one of the head is among them. -/
lemma endless (hp : v.PushedAt g i x v') (hhead : v.Endless g v.sb.freeListHead)
    (h : v.Endless g off) : v'.Endless g off :=
  h.written hhead hp.other hp.link

/-- The new head of a list that does not end, if its slot was not `FREE`. -/
lemma head_endless (hp : v.PushedAt g i x v') (hi : i < g.n)
    (hhead : v.Endless g v.sb.freeListHead) (hst : (v.slots i).status ≠ statusFree) :
    v'.Endless g v'.sb.freeListHead := by
  rw [hp.head]
  by_cases hx : i = x
  · subst hx
    refine View.endless_of_next hi ?_
    rw [hp.link hi]
    exact hp.endless hhead hhead
  · refine View.endless_of_busy hi ?_
    rw [hp.other i hi hx]
    exact hst

/-- A slot that is not `FREE` and is put on the list through a pointer to another place. -/
lemma slot_endless (hp : v.PushedAt g i x v') (hi : i < g.n) (hx : x ≠ i)
    (hst : (v.slots i).status ≠ statusFree) : v'.Endless g (g.ptr i) := by
  refine View.endless_of_busy hi ?_
  rw [hp.other i hi hx.symm]
  exact hst

end View.PushedAt

/-- Since the layout `g₀` a move has left the free list without an end, at its head and at the slot
`c`. -/
structure View.Lost (g₀ g : Geometry) (v : View) (c : ℕ) : Prop where
  shrunk : g₀.Shrunk g
  bound : v.Bound g
  schema : 0 < g.cap → v.sb.schemaVersion = schemaVersion
  head : v.Endless g v.sb.freeListHead
  slot : v.Endless g (g.ptr c)

namespace View.Lost

variable {g₀ g g' : Geometry} {v w v' : View} {c j x : ℕ}

/-- The fields of the next handle, but for the head of its list. -/
lemma slot_step (hl : View.Lost g₀ g v c) (hc : c < g₀.n) (hr : View.Relaid g v g' w)
    (hp : w.PushedAt g' j x v') : v'.Endless g' (g'.ptr c) :=
  hp.endless (hr.head hl.head) (hr.slot c (by rw [hl.shrunk.n]; exact hc) hl.slot)

/-- **One more slot is given back**: the list is as lost as before. -/
lemma step (hl : View.Lost g₀ g v c) (hc : c < g₀.n) (hr : View.Relaid g v g' w)
    (hp : w.PushedAt g' j x v') (hj : j < g.n) (hst : (v.slots j).status ≠ statusFree) :
    View.Lost g₀ g' v' c where
  shrunk := hl.shrunk.trans hr.shrunk
  bound := hp.bound
  schema hpos := by
    rw [hp.schema, hr.schema]
    exact hl.schema (hpos.trans_le hr.shrunk.le)
  head := hp.head_endless (by rw [hr.shrunk.n]; exact hj) (hr.head hl.head) (by rwa [hr.status])
  slot := hl.slot_step hc hr hp

/-- **The first move**: a slot that is not `FREE` is given back through the pointer of the layout
before. -/
lemma first (hs : 0 < g.cap → v.sb.schemaVersion = schemaVersion) (hr : View.Relaid g v g' w)
    (hp : w.PushedAt g' c x v') (hx : x ≠ c) (hc : c < g.n)
    (hst : (v.slots c).status ≠ statusFree) : View.Lost g g' v' c := by
  have hslot : v'.Endless g' (g'.ptr c) :=
    hp.slot_endless (by rw [hr.shrunk.n]; exact hc) hx (by rwa [hr.status])
  refine ⟨hr.shrunk, hp.bound, fun hpos => ?_, ?_, hslot⟩
  · rw [hp.schema, hr.schema]
    exact hs (hpos.trans_le hr.shrunk.le)
  · rw [hp.head]
    exact hslot

end View.Lost

namespace Db

variable {g g₀ : Geometry} {db db' : Db} {i c : ℕ}

/-! ### The removal of an entry -/

/-- **The attempt to shrink that moves the slots**.
Source: `ef_index.c`, `ef_index_shrink` -/
lemma shrinkAfterRemove_relaid (h : (db.view g).Bound g) (hs : db.sb.schemaVersion = schemaVersion)
    (hfit : 64 * g.n < 2 ^ 63) (hfree : (db.view g).lockFree) (hm : db.shrinkMoves) :
    ∃ g' : Geometry, g'.cap < g.cap ∧ View.Relaid g (db.view g) g'
      ((db.shrinkAfterRemove db.hashEntryCount db.hashCapacity).view g') := by
  obtain ⟨target, htarget, hattempt, hstop⟩ := hm
  obtain ⟨hshould, hpick, hpos, hpow, hsmall⟩ := shrinkTarget_eq_some htarget
  have hshrink : db.shrinkAfterRemove db.hashEntryCount db.hashCapacity =
      (db.efIndexRehashTo target true).2 := by
    unfold shrinkAfterRemove efIndexShrink
    rw [if_pos hshould, hpick, if_neg (by omega)]
  have hcap : db.hashCapacity = g.cap := h.cap
  obtain ⟨hmin, hpow'⟩ := efIndexPickShrinkCapacity_pos (by rw [hpick]; exact hpos)
  rw [hpick] at hmin
  obtain ⟨-, -, hshrinks, -, -⟩ := (rehashStop_eq_none_iff target true).mp hstop
  obtain ⟨hlt, hback, -⟩ := hshrinks rfl
  rw [hashCapacity_indexAttempt] at hlt
  obtain ⟨hsb, hindex, hcore⟩ := SameTable.indexAttempt_sb db
  have hst : db.RehashStarts target true := by
    refine (rehashStarts_iff h.writable hpos hpow hsmall ?_ hindex hcore (by rw [hsb])
      (mallocFails_indexAttempt db)).mpr ⟨hstop, fun hfile => ?_⟩
    · have hlock : db.sb.indexWriteLock = 0 := hfree (by rw [← sb_eq, hs])
      have hanswer : db.contended.1 = false := by
        unfold indexAttempt at hattempt
        rw [if_neg (by omega)] at hattempt
        exact hattempt
      unfold indexLockBusy
      rw [hanswer, hlock]
      simp
    · rw [hback] at hfile
      cases hfile
  obtain ⟨g', hcap', hn, hb, hsb', fresh, hslots, -⟩ := efIndexRehashTo_moved h hs hfit hst
  rw [hshrink]
  generalize (db.efIndexRehashTo target true).2 = db' at hb hsb' hslots ⊢
  have hdvd : 4 ∣ g.cap - g'.cap := by
    rw [hcap', ← hcap]
    exact Nat.dvd_sub (four_dvd_of_and hpow' (by omega)) (four_dvd_of_and hpow (by omega))
  refine ⟨g', by omega, ⟨hn, by omega, hdvd⟩, hb, ?_, hslots.status, fun he => ?_, fun i hi he => ?_⟩
  · rw [← sb_eq, hsb']
    rfl
  · have hhead : (db'.view g').sb.freeListHead = fixNext g.base g'.base db.sb.freeListHead := by
      rw [← sb_eq, hsb']
      rfl
    rw [hhead]
    exact he.moved hslots hn
  · rw [← fixNext_ptr hn hi]
    exact he.moved hslots hn

/-- **The removal of a slot's entry**, with or without a move.
Source: `ef_index.c`, `ef_index_remove_by_slot` -/
lemma efIndexRemoveBySlot_relaid (h : (db.view g).Bound g)
    (hs : 0 < g.cap → db.sb.schemaVersion = schemaVersion) (hfit : 64 * g.n < 2 ^ 63) (hi : i < g.n)
    (hok : (db.efIndexRemoveBySlot i).1 = .ok) :
    ∃ g' : Geometry, (db.removalMoves i → g'.cap < g.cap) ∧
      View.Relaid g (db.view g) g' ((db.efIndexRemoveBySlot i).2.view g') := by
  by_cases hm : db.removalMoves i
  swap
  · exact ⟨g, fun h0 => absurd h0 hm, .of_still h (efIndexRemoveBySlot_still h hi hm hok).1⟩
  obtain ⟨hfree, db₁, hst, htable, heq⟩ := efIndexRemoveBySlot_eq h hi hok
  have hpos : 0 < g.cap := by
    by_contra h0
    exact not_removalMoves_of_small h.cap (by omega) i hm
  have hsb₁ : db₁.sb = db.sb := hst.sb
  have hfree₁ : (db₁.view g).lockFree := by
    unfold View.lockFree
    rw [hst.sb]
    exact hfree
  obtain ⟨g', hlt, hr⟩ := shrinkAfterRemove_relaid (hst.bound h) (by rw [hsb₁]; exact hs hpos) hfit
    hfree₁ (htable.shrinkMoves.mpr hm)
  rw [heq]
  exact ⟨g', fun _ => hlt, (View.Relaid.of_still h hst).trans hr⟩

/-! ### A slot given back -/

/-- **A slot put on the free list** through a pointer to any place behind the table.
Source: `endfields.c`, `ef_free_list_push_atomic` -/
lemma efFreeListPushAtomic_at (h : (db.view g).Bound g) (hi : i < g.n) {x : ℕ}
    (hx : g.ptr x + 64 + undoLogBytes undoLogDefaultSlots < u64) :
    ∃ db', db.efFreeListPushAtomic i (g.ptr x) = (.ok, db') ∧
      (db.view g).PushedAt g i x (db'.view g) := by
  -- the layout with as many slots more as it takes to reach that place
  have hfits : 64 + 16 * g.cap + 64 * max g.n (x + 1) + undoLogBytes undoLogDefaultSlots < u64 := by
    have hg := g.fits
    unfold Geometry.ptr Geometry.base at hx
    omega
  let G : Geometry := ⟨g.cap, max g.n (x + 1), hfits⟩
  have hxG : x < G.n := lt_max_of_lt_right (Nat.lt_succ_self x)
  have hle : g.n ≤ G.n := le_max_left _ _
  have hslots : ∀ (d : Db) (j : ℕ), j < g.n → (d.view g).slots j = (d.view G).slots j :=
    fun d j hj => (slotAt_eq d hj).symm.trans (slotAt_eq (g := G) d (by omega))
  have hoff := efSlotToOffset_of_lt h hi
  have hhead : (db.view G).sb.freeListHead % u64 = (db.view G).sb.freeListHead :=
    Nat.mod_eq_of_lt (freeListHead_lt G db)
  have hptr : g.ptr i % u64 = g.ptr i := Nat.mod_eq_of_lt (g.ptr_lt_u64 hi)
  have hview : (db.efFreeListPushAtomic i (G.ptr x)).2.view G =
      ((db.view G).setSb (((db.view G).sb.setFreeListHead (g.ptr i)).setFreeCount
        (((db.view G).sb.freeCount + 1) % u32))).setSlot x (db.view G).released := by
    unfold efFreeListPushAtomic
    simp only [view_setError, view_efDbMarkMetaDirty, efSbFreeCountInc_view, hoff]
    simp [sb_eq G, view_blank hxG, view_setStatus hxG, view_setNext hxG, View.released, hhead, hptr]
  refine ⟨(db.efFreeListPushAtomic i (G.ptr x)).2, rfl, ?_⟩
  generalize (db.efFreeListPushAtomic i (G.ptr x)).2 = db' at hview ⊢
  have hcore : db'.core = db.core := congrArg View.core hview
  have hsb : db'.sb = (db.sb.setFreeListHead (g.ptr i)).setFreeCount ((db.sb.freeCount + 1) % u32) :=
    congrArg View.sb hview
  refine ⟨?_, ?_, ?_, fun j hj hjx => ?_, fun hlt => ?_⟩
  · refine h.congr (congrArg Core.hashCapacity hcore) (congrArg Core.fileSize hcore)
      (congrArg Core.readonly hcore) ?_
    rw [← sb_eq, hsb]
    rfl
  · rw [← sb_eq, hsb]
    rfl
  · rw [← sb_eq, hsb]
    rfl
  · rw [hslots db' j hj, hslots db j hj, hview, View.setSlot_slots, Function.update_of_ne hjx]
    rfl
  · rw [hslots db' x hlt, hview, View.setSlot_slots, Function.update_self]
    rfl

/-- **A slot given back** through a pointer of the layout `g₀`, with or without a move of the slots
in between.
Source: `ef_blob.c`, `ef_return_slot_to_pool` -/
lemma efReturnSlotToPool_relaid (h : (db.view g).Bound g)
    (hs : 0 < g.cap → db.sb.schemaVersion = schemaVersion) (hfit : 64 * g.n < 2 ^ 63) (hi : i < g.n)
    (hg : g₀.Shrunk g) (hok : (db.efReturnSlotToPool i (g₀.ptr i)).1 = .ok) :
    ∃ (g' : Geometry) (w : View) (x : ℕ), View.Relaid g (db.view g) g' w ∧
      (x = i ↔ g'.cap = g₀.cap) ∧ (db.removalMoves i → g'.cap < g.cap) ∧
      w.PushedAt g' i x ((db.efReturnSlotToPool i (g₀.ptr i)).2.view g') := by
  have hrem := efIndexRemoveBySlot_relaid h hs hfit hi
  unfold efReturnSlotToPool at hok ⊢
  generalize db.efIndexRemoveBySlot i = r at hrem hok ⊢
  obtain ⟨e, db₁⟩ := r
  cases e with
  | ok =>
      obtain ⟨g', hlt, hr⟩ := hrem rfl
      have hg' := hg.trans hr.shrunk
      obtain ⟨x, hx, hxi⟩ := hg'.exists_ptr i
      have hroom : g'.ptr x + 64 + undoLogBytes undoLogDefaultSlots < u64 := by
        have hp := g₀.ptr_lt (i := i) (by rw [← hg.n]; exact hi)
        have hsize := g₀.size_lt
        unfold Geometry.size at hsize
        omega
      obtain ⟨db₂, heq, hp⟩ := efFreeListPushAtomic_at hr.bound (by rw [hr.shrunk.n]; exact hi) hroom
      simp only [hx, heq]
      exact ⟨g', db₁.view g', x, hr, hxi, hlt, hp⟩
  | _ => cases hok

/-- A slot given back leaves the transaction as it is.
Source: `ef_blob.c`, `ef_return_slot_to_pool` -/
lemma txnActive_efReturnSlotToPool (i p : ℕ) :
    (db.efReturnSlotToPool i p).2.txnActive = db.txnActive := by
  have hrem : (db.efIndexRemoveBySlot i).2.txnActive = db.txnActive :=
    (moves_efIndexRemoveBySlot db i).txnActive
  unfold efReturnSlotToPool
  generalize db.efIndexRemoveBySlot i = r at hrem ⊢
  obtain ⟨e, db₁⟩ := r
  cases e <;> exact hrem

/-- **The first move**: the slot that is given back is lost. -/
lemma lost_of_return (h : (db.view g).Bound g)
    (hs : 0 < g.cap → db.sb.schemaVersion = schemaVersion) (hfit : 64 * g.n < 2 ^ 63) (hi : i < g.n)
    (hst : ((db.view g).slots i).status ≠ statusFree) (hm : db.removalMoves i)
    (hok : (db.efReturnSlotToPool i (g.ptr i)).1 = .ok) :
    ∃ g', View.Lost g g' ((db.efReturnSlotToPool i (g.ptr i)).2.view g') i := by
  obtain ⟨g', w, x, hr, hx, hlt, hp⟩ := efReturnSlotToPool_relaid h hs hfit hi (.refl g) hok
  have hne : x ≠ i := by
    intro heq
    have hcap := hx.mp heq
    have hless := hlt hm
    omega
  exact ⟨g', .first hs hr hp hne hi hst⟩

/-! ### The release of a chain -/

/-- A slot whose link is cleared before it is given back is not `FREE`, so no list ends there. -/
lemma lost_setNext (hl : View.Lost g₀ g (db.view g) c) (hi : i < g.n)
    (hst : ((db.view g).slots i).status ≠ statusFree) :
    View.Lost g₀ g ((db.setNext (g.ptr i) 0).view g) c := by
  have hview : (db.setNext (g.ptr i) 0).view g = (db.view g).setSlot i
      { (db.view g).slots i with nextOffset := 0 } := view_setNext hi
  rw [hview]
  have hsame : ∀ off, (db.view g).Endless g off → ((db.view g).setSlot i
      { (db.view g).slots i with nextOffset := 0 }).Endless g off := by
    intro off he
    refine he.congr fun j _ => ?_
    rw [View.setSlot_slots]
    by_cases hj : j = i
    · subst hj
      rw [Function.update_self]
      exact ⟨rfl, fun h0 => absurd h0 hst⟩
    · rw [Function.update_of_ne hj]
      exact ⟨rfl, fun _ => rfl⟩
  exact ⟨hl.shrunk, View.bound_setSlot.mpr hl.bound, hl.schema, hsame _ hl.head, hsame _ hl.slot⟩

/-- A slot of a chain whose removal moves the slots is lost. -/
lemma lost_of_release (h : (db.view g).Bound g)
    (hs : 0 < g.cap → db.sb.schemaVersion = schemaVersion) (hfit : 64 * g.n < 2 ^ 63) (hc : c < g.n)
    (hst : ((db.view g).slots c).status = statusOverflow) (hm : db.removalMoves c)
    (hok : ((db.setNext (g.ptr c) 0).efReturnSlotToPool c (g.ptr c)).1 = .ok) :
    ∃ g', View.Lost g g' (((db.setNext (g.ptr c) 0).efReturnSlotToPool c (g.ptr c)).2.view g') c := by
  have hview : (db.setNext (g.ptr c) 0).view g = (db.view g).setSlot c
      { (db.view g).slots c with nextOffset := 0 } := view_setNext hc
  have hsame := SameTable.setNext h hc
  have hm₁ := (hsame.removalMoves h.cap c).mpr hm
  generalize db.setNext (g.ptr c) 0 = db₁ at hview hsame hm₁ hok ⊢
  refine lost_of_return ?_ (fun hpos => ?_) hfit hc ?_ hm₁ hok
  · rw [hview, View.bound_setSlot]
    exact h
  · rw [hsame.schema]
    exact hs hpos
  · rw [hview, View.setSlot_slots, Function.update_self]
    simp only [hst]
    decide

/-- **The rest of a release** after a move: the free list stays without an end. -/
lemma releaseChainLoop_lost (fuel off : ℕ) (hl : View.Lost g₀ g (db.view g) c) (hc : c < g₀.n)
    (hfit : 64 * g₀.n < 2 ^ 63) (hok : (releaseChainLoop fuel off db).1 = .ok) :
    ∃ g', View.Lost g₀ g' ((releaseChainLoop fuel off db).2.view g') c := by
  induction fuel generalizing off db g with
  | zero => cases hok
  | succ fuel ih =>
      have hb := hl.bound
      rw [releaseChainLoop] at hok ⊢
      by_cases h0 : off = 0
      · rw [if_pos h0]
        exact ⟨g, hl⟩
      rw [if_neg h0] at hok ⊢
      rcases hid : db.efOffsetToSlotId off with e | j
      · rw [hid] at hok
        exact absurd (hid.trans (congrArg Except.error hok)) efOffsetToSlotId_ne_error_ok
      rw [hid] at hok
      obtain ⟨hj, -⟩ := (efOffsetToSlotId_eq_ok_iff hb _ _).mp hid
      simp only [slotPtr_eq hb.cap, slotAt_eq db hj] at hok ⊢
      by_cases hst : ((db.view g).slots j).status = statusOverflow
      swap
      · rw [if_pos hst] at hok
        cases hok
      rw [if_neg (not_not.mpr hst)] at hok ⊢
      have hbusy : ((db.view g).slots j).status ≠ statusFree := by
        rw [hst]
        decide
      have hl₀ := lost_setNext hl hj hbusy
      have hbusy₀ : (((db.setNext (g.ptr j) 0).view g).slots j).status ≠ statusFree := by
        rw [view_setNext hj, View.setSlot_slots, Function.update_self]
        exact hbusy
      have hfit' : 64 * g.n < 2 ^ 63 := by
        rw [hl.shrunk.n]
        exact hfit
      have hret := efReturnSlotToPool_relaid hl₀.bound hl₀.schema hfit' hj (.refl g)
      generalize db.setNext (g.ptr j) 0 = db₀ at hl₀ hbusy₀ hret hok ⊢
      generalize db₀.efReturnSlotToPool j (g.ptr j) = r at hret hok ⊢
      obtain ⟨e, db₁⟩ := r
      cases e with
      | ok =>
          obtain ⟨g', w, x, hr, -, -, hp⟩ := hret rfl
          exact ih _ (hl₀.step hc hr hp hj hbusy₀) hok
      | _ => cases hok

/-- The release of a chain leaves the transaction as it is.
Source: `ef_blob.c`, `ef_blob_release_chain` -/
lemma txnActive_releaseChainLoop (fuel off : ℕ) (db : Db) :
    (releaseChainLoop fuel off db).2.txnActive = db.txnActive := by
  induction fuel generalizing off db with
  | zero => rfl
  | succ fuel ih =>
      rw [releaseChainLoop]
      by_cases h0 : off = 0
      · rw [if_pos h0]
      rw [if_neg h0]
      rcases db.efOffsetToSlotId off with e | j
      · rfl
      simp only
      by_cases hst : (db.slotAt (db.slotPtr j)).status ≠ statusOverflow
      · rw [if_pos hst]
        rfl
      rw [if_neg hst]
      have hret : ((db.setNext (db.slotPtr j) 0).efReturnSlotToPool j (db.slotPtr j)).2.txnActive =
          db.txnActive := txnActive_efReturnSlotToPool j (db.slotPtr j)
      generalize (db.setNext (db.slotPtr j) 0).efReturnSlotToPool j (db.slotPtr j) = r at hret ⊢
      obtain ⟨e, db₁⟩ := r
      cases e with
      | ok => exact (ih _ db₁).trans hret
      | _ => exact hret

/-- The release of a slot's chain leaves the transaction as it is.
Source: `ef_blob.c`, `ef_blob_release_chain` -/
lemma txnActive_efBlobReleaseChain (db : Db) (i p : ℕ) :
    (db.efBlobReleaseChain i p).2.txnActive = db.txnActive := by
  have hcrc : ((db.setNext p 0).efSlotHeaderCrcStore i p).txnActive = db.txnActive := by
    unfold efSlotHeaderCrcStore
    split_ifs <;> rfl
  unfold efBlobReleaseChain
  simp only
  rw [txnActive_releaseChainLoop]
  exact hcrc

end Db

end Endfields.Model
