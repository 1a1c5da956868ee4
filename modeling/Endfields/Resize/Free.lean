import Endfields.Resize.Stale

/-!
# What `ef_free_slot` changes

A release takes the entry of every released slot off the index, and a removal may shrink the index.
In memory a shrink moves the slot region, while `ef_free_slot` and `ef_blob_release_chain` go on
with the pointers and links they took before.

* `Db.FreeKeeps`: the slot and the overflow slots chained from it are `FREE` and head the free list,
  and every other slot keeps its status, its payload and its successor.
* `Db.FreeSteady`: the handle stays put through the removals of the release, and the slot is in use
  if it has a chain.
* **`efFreeSlot_keeps_iff`**: a successful release does what it is to do exactly on such a handle.
* `efFreeSlot_relocates`: an index with 32 buckets in memory is shrunk in the middle of the call,
  and the released slot keeps its status.
-/

namespace Endfields.Model

open Endfields.Lib

namespace Db

/-- The slot region of the handle lies inside its image, and offsets do not overflow.
Source: `endfields.c`, `ef_validate_superblock` -/
structure Mapped (db : Db) : Prop where
  inFile : db.slotsBase + 64 * db.sb.maxSlots ≤ db.fileSize
  bound : db.fileSize < 2 ^ 63

instance (db : Db) : Decidable db.Mapped :=
  decidable_of_iff (db.slotsBase + 64 * db.sb.maxSlots ≤ db.fileSize ∧ db.fileSize < 2 ^ 63)
    ⟨fun ⟨h₁, h₂⟩ => ⟨h₁, h₂⟩, fun ⟨h₁, h₂⟩ => ⟨h₁, h₂⟩⟩

/-- The overflow slots chained from slot `i`, up to the slot itself if the chain comes back to it. -/
def chained (db : Db) (i : ℕ) : List ℕ := (db.overflowChain i).takeWhile (· ≠ i)

/-- What a release of slot `i` is to do: `db'` is `db` with the slot and the overflow slots chained
from it on the free list. -/
structure FreeKeeps (db : Db) (i : ℕ) (db' : Db) : Prop where
  freed : ∀ j ∈ i :: db.chained i, (db'.slot j).status = statusFree
  pushed : ∀ k, (∀ j ∈ db.freeChain k db.sb.freeListHead, j ∉ i :: db.chained i) →
    db'.freeChain ((i :: db.chained i).length + k) db'.sb.freeListHead =
      i :: (db.chained i).reverse ++ db.freeChain k db.sb.freeListHead
  kept : ∀ j, j < db.sb.maxSlots → j ∉ i :: db.chained i →
    (db'.slot j).status = (db.slot j).status ∧ (db'.slot j).payload = (db.slot j).payload ∧
      (db'.efOffsetToSlotId (db'.slot j).nextOffset).toOption =
        (db.efOffsetToSlotId (db.slot j).nextOffset).toOption

/-- No removal of the release moves the slots, and a slot with a chain is in use: only of such a
slot the chain is released. -/
def FreeSteady (db : Db) (i : ℕ) : Prop :=
  StaysPut db (db.chained i ++ [i]) ∧ ((db.slot i).status = statusUsed ∨ db.chained i = [])

instance (db : Db) (i : ℕ) : Decidable (db.FreeSteady i) := inferInstanceAs (Decidable (_ ∧ _))

/-- The free list comes to its end, and has `FREE` slots only. -/
def FreeListEnds (db : Db) : Prop :=
  (db.freeChain (db.sb.maxSlots + 1) db.sb.freeListHead).length ≤ db.sb.maxSlots ∧
    ∀ j ∈ db.freeChain (db.sb.maxSlots + 1) db.sb.freeListHead, (db.slot j).status = statusFree

instance (db : Db) : Decidable db.FreeListEnds := inferInstanceAs (Decidable (_ ∧ _))

variable {g : Geometry} {db db' : Db} {l : List ℕ} {i j c : ℕ}

/-- The geometry of a mapped handle. -/
lemma Mapped.geometry (h : db.Mapped) (hw : db.readonly = false) :
    ∃ g, (db.view g).Bound g := by
  have hbase := db.slotsBase_eq
  have hfile := h.inFile
  have hbound := h.bound
  refine ⟨⟨db.hashCapacity, db.sb.maxSlots, ?_⟩, rfl, ?_, hw, rfl⟩
  · simp only [undoLogBytes, undoLogDefaultSlots, u64]
    omega
  · show Geometry.undoBase _ ≤ db.fileSize
    simp only [Geometry.undoBase, Geometry.base]
    omega

lemma overflowChain_eq (h : (db.view g).Bound g) (hi : i < g.n) :
    db.overflowChain i = walk ((db.view g).overflowAt g)
      (fun j => ((db.view g).slots j).nextOffset) (g.n + 1) ((db.view g).slots i).nextOffset := by
  have hmax : db.sb.maxSlots = g.n := h.maxSlots
  unfold overflowChain
  rw [hmax, slot_eq h.cap hi]
  generalize ((db.view g).slots i).nextOffset = off
  generalize g.n + 1 = k
  induction k generalizing off with
  | zero => rfl
  | succ k ih =>
      unfold walk
      rw [overflowAt_eq h]
      rcases ho : (db.view g).overflowAt g off with _ | j
      · rfl
      · obtain ⟨hj, -, -⟩ := View.overflowAt_eq_some_iff.mp ho
        simp only [slot_eq h.cap hj, ih]

/-- The slots of a chain are overflow slots. -/
lemma of_mem_overflowChain (h : (db.view g).Bound g) (hi : i < g.n) (hj : j ∈ db.overflowChain i) :
    j < g.n ∧ ((db.view g).slots j).status = statusOverflow := by
  rw [overflowChain_eq h hi] at hj
  obtain ⟨o, ho⟩ := exists_of_mem_walk hj
  obtain ⟨hlt, -, hst⟩ := View.overflowAt_eq_some_iff.mp ho
  exact ⟨hlt, hst⟩

/-- The slots chained from a slot are other slots. -/
lemma of_mem_chained (h : (db.view g).Bound g) (hi : i < g.n) (hj : j ∈ db.chained i) :
    j < g.n ∧ ((db.view g).slots j).status = statusOverflow ∧ j ≠ i := by
  obtain ⟨hlt, hst⟩ := of_mem_overflowChain h hi ((List.takeWhile_subset _) hj)
  have hne := List.mem_takeWhile_imp hj
  exact ⟨hlt, hst, of_decide_eq_true hne⟩

/-- The chain of a slot in use does not come back to it. -/
lemma chained_of_used (h : (db.view g).Bound g) (hi : i < g.n)
    (hused : ((db.view g).slots i).status = statusUsed) : db.chained i = db.overflowChain i := by
  unfold chained
  refine List.takeWhile_eq_self_iff.mpr fun j hj => decide_eq_true ?_
  rintro rfl
  have hst := (of_mem_overflowChain h hi hj).2
  rw [hused] at hst
  cases hst

/-- Slots that are given back make up a release. -/
lemma freeKeeps_of_freed (h : (db.view g).Bound g) (hi : i < g.n)
    (hnd : (i :: db.chained i).Nodup) {db₁ : Db} {s : Slot}
    (hview : db₁.view g = (db.view g).setSlot i s)
    (hf : Freed g db₁ (db.chained i ++ [i]) db') : db.FreeKeeps i db' := by
  have hmax : db.sb.maxSlots = g.n := h.maxSlots
  have hb₁ : (db₁.view g).Bound g := by rwa [hview, View.bound_setSlot]
  have hb' := hf.bound hb₁
  have hmem : ∀ {j}, j ∈ db.chained i ++ [i] ↔ j ∈ i :: db.chained i := by
    intro j
    simp [or_comm]
  have hlt' : ∀ j ∈ i :: db.chained i, j < g.n := by
    intro j hj
    rcases List.mem_cons.mp hj with rfl | hj
    · exact hi
    · exact (of_mem_chained h hi hj).1
  -- the other slots are those of the state before
  have hother : ∀ j, j ∉ i :: db.chained i → (db'.view g).slots j = (db.view g).slots j := by
    intro j hj
    have hne : j ≠ i := fun heq => hj (heq ▸ List.mem_cons_self)
    rw [hf.still.slots, View.pushSlots_slots_of_not_mem (fun hm => hj (hmem.mp hm)), hview,
      View.setSlot_slots, Function.update_of_ne hne]
  refine ⟨?_, ?_, ?_⟩
  · intro j hj
    rw [slot_eq hb'.cap (hlt' j hj), hf.still.slots]
    exact View.pushSlots_status_of_mem (hmem.mpr hj)
  · intro k hk
    have hnd' : (db.chained i ++ [i]).Nodup := by
      rw [List.nodup_append_comm]
      exact hnd
    have hlink := View.pushSlots_linked (v := db₁.view g) hnd' fun j hj => hlt' j (hmem.mp hj)
    have hhead : (db'.view g).sb.freeListHead =
        ((db₁.view g).pushSlots g (db.chained i ++ [i])).sb.freeListHead := by
      rw [hf.still.sb]
    have hold : (db₁.view g).sb.freeListHead = db.sb.freeListHead := by
      rw [hview]
      rfl
    rw [hold, ← hf.still.slots] at hlink
    have hwalk := hlink.walk_eq k
    rw [freeChain_eq hb', sb_eq g, hhead]
    rw [List.length_reverse, List.length_append, List.length_singleton] at hwalk
    rw [List.length_cons, hwalk, List.reverse_append, freeChain_eq h]
    refine congrArg (i :: (db.chained i).reverse ++ ·) ?_
    refine walk_congr (fun _ => rfl) fun j hj => ?_
    rw [hother j (hk j (by rw [freeChain_eq h]; exact hj))]
  · intro j hj hjl
    have hj' : j < g.n := by omega
    rw [slot_eq hb'.cap hj', slot_eq h.cap hj', hother j hjl, efOffsetToSlotId_toOption hb',
      efOffsetToSlotId_toOption h]
    exact ⟨rfl, rfl, rfl⟩

/-- A path of distinct overflow slots is a part of the chain. -/
lemma isPrefix_overflowChain (h : (db.view g).Bound g) (hi : i < g.n) {z : ℕ} (hnd : l.Nodup)
    (hpath : View.OverflowPath g (db.view g) ((db.view g).slots i).nextOffset l z) :
    l <+: db.overflowChain i := by
  have hlen : l.length ≤ g.n := by
    have hsub := hnd.subperm fun a ha => by
      obtain ⟨o, ho⟩ := hpath.exists_of_mem ha
      exact List.mem_range.mpr (View.overflowAt_eq_some_iff.mp ho).1
    simpa using hsub.length_le
  have hwalk := hpath.walk_eq (g.n + 1 - l.length)
  rw [Nat.add_sub_cancel' (by omega)] at hwalk
  rw [overflowChain_eq h hi, hwalk]
  exact List.prefix_append _ _

/-- A path of overflow slots does not see a slot that is not one. -/
lemma overflowPath_setSlot {v : View} {off z : ℕ} {s : Slot}
    (hi : (v.slots i).status ≠ statusOverflow) (hs : s.status ≠ statusOverflow)
    (h : View.OverflowPath g (v.setSlot i s) off l z) :
    View.OverflowPath g v off l z ∧ i ∉ l := by
  have hne : ∀ o a, (v.setSlot i s).overflowAt g o = some a → a ≠ i := by
    rintro o a ha rfl
    obtain ⟨-, -, hst⟩ := View.overflowAt_eq_some_iff.mp ha
    rw [View.setSlot_slots, Function.update_self] at hst
    exact hs hst
  refine ⟨h.mono fun o a _ ha => ?_, ?_⟩
  · have hai := hne o a ha
    obtain ⟨hlt, hptr, hst⟩ := View.overflowAt_eq_some_iff.mp ha
    simp only [View.setSlot_slots, Function.update_of_ne hai] at hst ⊢
    exact ⟨View.overflowAt_eq_some_iff.mpr ⟨hlt, hptr, hst⟩, trivial⟩
  · intro hil
    obtain ⟨o, ho⟩ := h.exists_of_mem hil
    exact hne o i ho rfl

/-- **The release of a used slot's chain**, when it succeeds: no removal has moved the slots, those
of the chain are given back, and the slot has lost its link; or a removal has moved them, and the
free list has no end afterwards.
Source: `ef_blob.c`, `ef_blob_release_chain` -/
lemma efBlobReleaseChain_cases (h : (db.view g).Bound g) (hfit : 64 * g.n < 2 ^ 63) (hi : i < g.n)
    (hused : ((db.view g).slots i).status = statusUsed)
    (hok : (db.efBlobReleaseChain i (g.ptr i)).1 = .ok) :
    (db.StaysPut (db.chained i) ∧ (i :: db.chained i).Nodup ∧
      ∃ db₁ s, db₁.view g = (db.view g).setSlot i s ∧ s.status = statusUsed ∧ SameTable db db₁ ∧
        Freed g db₁ (db.chained i) (db.efBlobReleaseChain i (g.ptr i)).2) ∨
    (¬ db.StaysPut (db.chained i) ∧ ((0 < g.cap → db.sb.schemaVersion = schemaVersion) →
      ∃ c ∈ db.chained i, ∃ g', View.Lost g g' ((db.efBlobReleaseChain i (g.ptr i)).2.view g') c)) := by
  rw [chained_of_used h hi hused]
  set db₁ := (db.setNext (g.ptr i) 0).efSlotHeaderCrcStore i (g.ptr i) with hdb₁
  set s := Slot.sealed (db.view g).sb.slotCrc i { (db.view g).slots i with nextOffset := 0 } with hs'
  have hview₁ : db₁.view g = (db.view g).setSlot i s := by
    rw [hdb₁, hs', view_efSlotHeaderCrcStore hi, view_setNext hi]
    simp
  have hb₁ : (db₁.view g).Bound g := by rwa [hview₁, View.bound_setSlot]
  have hb₀ : ((db.setNext (g.ptr i) 0).view g).Bound g := by
    rw [view_setNext hi, View.bound_setSlot]
    exact h
  have hsame : SameTable db db₁ :=
    (SameTable.setNext h hi).trans (SameTable.efSlotHeaderCrcStore hb₀ hi)
  have hne : ((db.view g).slots i).status ≠ statusOverflow := by
    rw [hused]
    decide
  have hsst : s.status = statusUsed := by
    rw [hs', Slot.sealed_status]
    exact hused
  have hsne : s.status ≠ statusOverflow := by
    rw [hsst]
    decide
  have hpath : ∀ l z, View.OverflowPath g (db₁.view g) ((db.view g).slots i).nextOffset l z →
      View.OverflowPath g (db.view g) ((db.view g).slots i).nextOffset l z ∧ i ∉ l := by
    intro l z hp
    rw [hview₁] at hp
    exact overflowPath_setSlot hne hsne hp
  have heq : db.efBlobReleaseChain i (g.ptr i) =
      releaseChainLoop (17 * (db₁.sb.maxSlots + 1)) ((db.view g).slots i).nextOffset db₁ := by
    rw [← slotAt_eq db hi]
    rfl
  rw [heq] at hok ⊢
  rcases releaseChainLoop_cases _ _ hb₁ hok with
    ⟨l, hp, hnd, hs, hf⟩ | ⟨l, c, z, hp, hnd, k, db₂, db₃, hf, hm, hret, hrest⟩
  · -- the chain has come to its end
    obtain ⟨hp', hil⟩ := hpath l 0 hp
    have hl : db.overflowChain i = l := by
      have hlt : ∀ j ∈ l, j < g.n := by
        intro j hj
        obtain ⟨o, ho⟩ := hp'.exists_of_mem hj
        exact (View.overflowAt_eq_some_iff.mp ho).1
      rw [overflowChain_eq h hi]
      refine (hp'.chain View.overflowAt_zero).walk_eq ?_
      have hsub := hnd.subperm fun a ha => List.mem_range.mpr (hlt a ha)
      have hle : l.length ≤ g.n := by simpa using hsub.length_le
      omega
    rw [hl]
    exact .inl ⟨hsame.symm.staysPut hb₁.cap hs, List.nodup_cons.mpr ⟨hil, hnd⟩, db₁, s, hview₁, hsst,
      hsame, hf⟩
  -- the removal for the slot `c` has moved the slots
  obtain ⟨hp', -⟩ := hpath _ z hp
  obtain ⟨l', hl'⟩ := isPrefix_overflowChain h hi hnd hp'
  refine .inr ⟨fun hs => ?_, fun hv => ⟨c, ?_, ?_⟩⟩
  · rw [← hl'] at hs
    have hs₁ := hsame.staysPut h.cap (staysPut_append.mp hs).1
    exact absurd hm (staysPut_cons.mp (hf.staysPut hb₁ hs₁)).1
  · rw [← hl']
    simp
  · obtain ⟨hnd', -, hdisj⟩ := List.nodup_append.mp hnd
    have hcl : c ∉ l := fun hmem => hdisj c hmem c (by simp) rfl
    obtain ⟨y, -, hc⟩ := linked_append.mp hp
    obtain ⟨hcn, -, hst⟩ := View.overflowAt_eq_some_iff.mp hc.1
    have hst₂ : ((db₂.view g).slots c).status = statusOverflow := by
      rw [hf.still.slots, View.pushSlots_slots_of_not_mem hcl]
      exact hst
    have hb₂ := hf.bound hb₁
    have hv₂ : 0 < g.cap → db₂.sb.schemaVersion = schemaVersion := by
      intro hpos
      rw [hf.schema, hsame.schema]
      exact hv hpos
    obtain ⟨g', hl⟩ := lost_of_release hb₂ hv₂ hfit hcn hst₂ hm (by rw [hret])
    rw [hret] at hl
    rw [hrest] at hok ⊢
    exact releaseChainLoop_lost k z hl hcn hfit hok

/-- The end of a release: with its chain given back, the slot is given back too. -/
lemma freeKeeps_of_return (h : (db.view g).Bound g) (hi : i < g.n)
    (hnd : (i :: db.chained i).Nodup) (hs : db.StaysPut (db.chained i ++ [i])) {db₁ db₂ : Db}
    {s : Slot} (hview : db₁.view g = (db.view g).setSlot i s) (hsame : SameTable db db₁)
    (hf : Freed g db₁ (db.chained i) db₂) (hok : (db₂.efReturnSlotToPool i (g.ptr i)).1 = .ok) :
    db.FreeKeeps i (db₂.efReturnSlotToPool i (g.ptr i)).2 := by
  have hb₁ : (db₁.view g).Bound g := by rwa [hview, View.bound_setSlot]
  have hs₂ := hf.staysPut hb₁ (hsame.staysPut h.cap hs)
  have hret := efReturnSlotToPool_spec (hf.bound hb₁) hi (staysPut_cons.mp hs₂).1 hok
  exact freeKeeps_of_freed h hi hnd hview (hf.trans hret hb₁)

/-! ### Releases that move the slots -/

/-- **A free list that does not end** at a released slot: the release has not done what it is to
do, since the list before it has an end. -/
lemma not_freeKeeps (h : (db.view g).Bound g) (hi : i < g.n) (hends : db.FreeListEnds)
    (hst : ((db.view g).slots i).status ≠ statusFree) {g' : Geometry}
    (hb' : (db'.view g').Bound g') (hc : c ∈ i :: db.chained i)
    (he : (db'.view g').Endless g' (g'.ptr c)) : ¬ db.FreeKeeps i db' := by
  intro hk
  obtain ⟨hlen, hfree⟩ := hends
  have hmax : db.sb.maxSlots = g.n := h.maxSlots
  have hdisj : ∀ j ∈ db.freeChain (db.sb.maxSlots + 1) db.sb.freeListHead, j ∉ i :: db.chained i := by
    intro j hj hmem
    have hfj := hfree j hj
    rcases List.mem_cons.mp hmem with rfl | hmem
    · rw [slot_eq h.cap hi] at hfj
      exact hst hfj
    · obtain ⟨hlt, hover, -⟩ := of_mem_chained h hi hmem
      rw [slot_eq h.cap hlt, hover] at hfj
      cases hfj
  have hpush := hk.pushed _ hdisj
  have hkept := hk.kept
  have hfreed := hk.freed
  have hlt : ∀ j ∈ db.freeChain (db.sb.maxSlots + 1) db.sb.freeListHead, j < db.sb.maxSlots := by
    intro j hj
    rw [freeChain_eq h] at hj
    obtain ⟨o, ho⟩ := exists_of_mem_walk hj
    rw [hmax]
    exact ((g.idOf_eq_some_iff _ _).mp ho).1
  generalize db.freeChain (db.sb.maxSlots + 1) db.sb.freeListHead = old at *
  -- the list is shorter than the walk along it, so it comes to its end
  rw [freeChain_eq hb'] at hpush
  have hchain : Chain g'.idOf (fun j => ((db'.view g').slots j).nextOffset) db'.sb.freeListHead
      (i :: (db.chained i).reverse ++ old) := by
    rw [← hpush]
    refine chain_walk ?_
    rw [hpush]
    simp only [List.cons_append, List.length_cons, List.length_append, List.length_reverse]
    omega
  obtain ⟨z, hlink, hz⟩ := hchain.linked
  have hmem : c ∈ i :: (db.chained i).reverse ++ old := by
    rw [List.cons_append, List.mem_cons, List.mem_append, List.mem_reverse]
    rcases List.mem_cons.mp hc with hci | hc
    · exact .inl hci
    · exact .inr (.inl hc)
  obtain ⟨s, u, hsu⟩ := List.append_of_mem hmem
  rw [hsu] at hlink
  obtain ⟨y, -, hcu⟩ := linked_append.mp hlink
  obtain ⟨-, rfl⟩ := (g'.idOf_eq_some_iff _ _).mp hcu.1
  refine hcu.not_endless hz (fun j hj => ?_) he
  -- every slot of the list is `FREE`
  obtain ⟨o, ho⟩ := hcu.exists_of_mem hj
  have hjn := ((g'.idOf_eq_some_iff _ _).mp ho).1
  rw [← slot_eq hb'.cap hjn]
  have hjl : j ∈ i :: (db.chained i).reverse ++ old := by
    rw [hsu]
    exact List.mem_append_right s hj
  rw [List.cons_append, List.mem_cons, List.mem_append, List.mem_reverse] at hjl
  by_cases hrel : j ∈ i :: db.chained i
  · exact hfreed j hrel
  · rw [List.mem_cons, not_or] at hrel
    have hold : j ∈ old := (hjl.resolve_left hrel.1).resolve_left hrel.2
    rw [(hkept j (hlt j hold) (hdisj j hold)).1]
    exact hfree j hold

/-- The end of a release that moves the slots. -/
lemma not_freeKeeps_of_return (h : (db.view g).Bound g) (hi : i < g.n) (hfit : 64 * g.n < 2 ^ 63)
    (hends : db.FreeListEnds) (hst : ((db.view g).slots i).status ≠ statusFree) {db₂ : Db}
    (hb₂ : (db₂.view g).Bound g) (hv₂ : 0 < g.cap → db₂.sb.schemaVersion = schemaVersion)
    (hst₂ : ((db₂.view g).slots i).status ≠ statusFree) (hm : db₂.removalMoves i)
    (hok : (db₂.efReturnSlotToPool i (g.ptr i)).1 = .ok) :
    ¬ db.FreeKeeps i (db₂.efReturnSlotToPool i (g.ptr i)).2 := by
  obtain ⟨g', hl⟩ := lost_of_return hb₂ hv₂ hfit hi hst₂ hm hok
  exact not_freeKeeps h hi hends hst hl.bound List.mem_cons_self hl.slot

/-- The end of a release whose chain has moved the slots. -/
lemma not_freeKeeps_of_lost (h : (db.view g).Bound g) (hi : i < g.n) (hfit : 64 * g.n < 2 ^ 63)
    (hends : db.FreeListEnds) (hst : ((db.view g).slots i).status ≠ statusFree)
    (hc : c ∈ db.chained i) {db₂ : Db} {g₂ : Geometry} (hl : View.Lost g g₂ (db₂.view g₂) c)
    (hok : (db₂.efReturnSlotToPool i (g.ptr i)).1 = .ok) :
    ¬ db.FreeKeeps i (db₂.efReturnSlotToPool i (g.ptr i)).2 := by
  have hn := hl.shrunk.n
  obtain ⟨g', w, x, hr, -, -, hp⟩ := efReturnSlotToPool_relaid hl.bound hl.schema
    (by rw [hn]; exact hfit) (by rw [hn]; exact hi) hl.shrunk hok
  have hcn := (of_mem_chained h hi hc).1
  exact not_freeKeeps h hi hends hst hp.bound (List.mem_cons_of_mem i hc) (hl.slot_step hcn hr hp)

/-- **A successful release** puts the slot and its chain on the free list, and changes nothing else,
if the handle is steady; with a free list that ends, and a table since schema v5, only if it is. -/
theorem efFreeSlot_keeps_iff (hm : db.Mapped) (hidle : db.txnActive = false)
    (hok : (db.efFreeSlot i).1 = .ok) :
    (db.FreeSteady i → db.FreeKeeps i (db.efFreeSlot i).2) ∧
      ((0 < db.hashCapacity → db.sb.schemaVersion = schemaVersion) → db.FreeListEnds →
        db.FreeKeeps i (db.efFreeSlot i).2 → db.FreeSteady i) := by
  by_cases hw : db.readonly = false
  swap
  · unfold efFreeSlot efDbRequireWrite at hok
    rw [if_pos (by simpa using hw)] at hok
    cases hok
  obtain ⟨g, h⟩ := hm.geometry hw
  have hacc : db.freeAccepts i := by
    by_contra hn
    exact (efFreeSlot_of_not_accepts h hn).1 hok
  have hmax : db.sb.maxSlots = g.n := h.maxSlots
  have hi : i < g.n := hmax ▸ hacc.1
  have hfit : 64 * g.n < 2 ^ 63 := by
    have hfile := hm.inFile
    have hbound := hm.bound
    omega
  have hcap : db.hashCapacity = g.cap := h.cap
  unfold FreeSteady
  unfold freeAccepts at hacc
  rw [slot_eq h.cap hi] at hacc ⊢
  obtain ⟨-, h1, h2, h3, h4⟩ := hacc
  have hslot : (db.setError .ok).slotAt (g.ptr i) = (db.view g).slots i := slotAt_eq db hi
  have hvalid : (db.setError .ok).efSlotHeaderCrcValid i ((db.view g).slots i) =
      db.efSlotHeaderCrcValid i ((db.view g).slots i) := rfl
  have h₀ : ((db.setError .ok).view g).Bound g := h
  have hsame₀ := SameTable.setError db .ok
  unfold efFreeSlot at hok ⊢
  rw [efDbRequireWrite_eq h.writable] at hok ⊢
  simp only at hok ⊢
  rw [efPeekSlot_of_lt h hi] at hok ⊢
  simp only [hslot, hvalid] at hok ⊢
  rw [if_neg h1, if_neg h2, if_neg h3, if_neg h4] at hok ⊢
  rw [hcap]
  by_cases hused : ((db.view g).slots i).status = statusUsed
  · rw [if_pos hused] at hok ⊢
    have hrel := efBlobReleaseChain_cases h₀ hfit hi hused
    have hidle₁ := txnActive_efBlobReleaseChain (db.setError .ok) i (g.ptr i)
    have hchained : (db.setError .ok).chained i = db.chained i := rfl
    rw [hchained] at hrel
    generalize (db.setError .ok).efBlobReleaseChain i (g.ptr i) = r at hok hrel hidle₁ ⊢
    obtain ⟨e, db₂⟩ := r
    cases e with
    | ok =>
        have hidle₂ : db₂.txnActive = false := hidle₁.trans hidle
        simp only [hidle₂, Bool.false_eq_true, if_false] at hok ⊢
        rcases hrel rfl with ⟨hs, hnd, db₁, s, hview, hsst, hsame, hf⟩ | ⟨hs, hlost⟩
        · have hs₀ : db.StaysPut (db.chained i) := hsame₀.symm.staysPut h.cap hs
          have hsame₁ := hsame₀.trans hsame
          have hb₁ : (db₁.view g).Bound g := by rwa [hview, View.bound_setSlot]
          by_cases hmove : db₂.removalMoves i
          · -- the slot's own removal moves the slots
            refine ⟨fun hc => ?_, fun hv hends hk => absurd hk ?_⟩
            · have hs₂ := hf.staysPut hb₁ (hsame₁.staysPut h.cap hc.1)
              exact absurd hmove (staysPut_cons.mp hs₂).1
            · refine not_freeKeeps_of_return h hi hfit hends h1 (hf.bound hb₁) (fun hpos => ?_) ?_
                hmove hok
              · rw [hf.schema, hsame₁.schema]
                exact hv hpos
              · rw [hf.still.slots, View.pushSlots_slots_of_not_mem (List.nodup_cons.mp hnd).1, hview,
                  View.setSlot_slots, Function.update_self, hsst]
                decide
          · -- no removal does
            have hput : db.StaysPut (db.chained i ++ [i]) := by
              refine staysPut_append.mpr ⟨hs₀, ?_⟩
              have htable := (hsame₁.afterRemovals h.cap (db.chained i)).trans hf.table
              exact htable.symm.staysPut (hf.bound hb₁).cap (.cons hmove (.nil _))
            have hk := freeKeeps_of_return h hi hnd hput hview hsame₁ hf hok
            exact ⟨fun _ => hk, fun _ _ _ => ⟨hput, .inl hused⟩⟩
        · -- a removal of the chain has moved the slots
          refine ⟨fun hc => absurd ?_ hs, fun hv hends hk => absurd hk ?_⟩
          · exact hsame₀.staysPut h.cap (staysPut_append.mp hc.1).1
          · obtain ⟨c, hc, g₂, hl⟩ := hlost hv
            exact not_freeKeeps_of_lost h hi hfit hends h1 hc hl hok
    | _ => cases hok
  · have hidle₀ : (db.setError .ok).txnActive = false := hidle
    rw [if_neg hused] at hok ⊢
    simp only [hidle₀, Bool.false_eq_true, if_false] at hok ⊢
    have hview : (db.setError .ok).view g = (db.view g).setSlot i ((db.view g).slots i) := by
      rw [View.setSlot_self]
      rfl
    by_cases hmove : (db.setError .ok).removalMoves i
    · -- the slot's own removal moves the slots
      refine ⟨fun hc => ?_, fun hv hends hk => absurd hk ?_⟩
      · have hs := hc.1
        rw [hc.2.resolve_left hused] at hs
        exact absurd hmove (staysPut_cons.mp (hsame₀.staysPut h.cap hs)).1
      · exact not_freeKeeps_of_return h hi hfit hends h1 h₀ hv h1 hmove hok
    by_cases hnil : db.chained i = []
    · have hput : db.StaysPut (db.chained i ++ [i]) := by
        rw [hnil]
        exact hsame₀.symm.staysPut h.cap (.cons hmove (.nil _))
      have hk := freeKeeps_of_return h hi (by rw [hnil]; exact List.nodup_singleton i) hput hview hsame₀
        (by rw [hnil]; exact Freed.nil _) hok
      exact ⟨fun _ => hk, fun _ _ _ => ⟨hput, .inr hnil⟩⟩
    · -- the chain is not released
      refine ⟨fun hc => absurd (hc.2.resolve_left hused) hnil, fun _ _ hk => ?_⟩
      obtain ⟨j, hj⟩ := List.exists_mem_of_ne_nil _ hnil
      obtain ⟨hlt, hst, hne⟩ := of_mem_chained h hi hj
      have hret := efReturnSlotToPool_spec h₀ hi hmove hok
      have hfree := hk.freed j (List.mem_cons_of_mem i hj)
      rw [slot_eq (hret.bound h₀).cap hlt, hret.still.slots,
        View.pushSlots_slots_of_not_mem (by simpa using hne)] at hfree
      have hst₀ : (((db.setError .ok).view g).slots j).status = statusOverflow := hst
      rw [hst₀] at hfree
      cases hfree

/-- A blob of two slots with a key on the second, in a database of 32 buckets, with the answers to
the lock attempts to come. -/
def blobWithKey (contention : List Bool) : Db :=
  { (((newMemory 3 32).efWriteBlob 0 (List.replicate 50 5)).2.efIndexPut [65] 1).2 with
    env := { Env.quiet with contention := contention } }

/-- Both slots of the blob are released if the attempts to shrink find the lock taken; without
contention the first of them moves the slots, and the release does not do what it is to do. -/
theorem efFreeSlot_keeps_of_chain :
    (blobWithKey []).chained 0 = [1] ∧ (blobWithKey []).mapped 1 = 1 ∧
      (blobWithKey [false, true, false, true]).FreeKeeps 0
        ((blobWithKey [false, true, false, true]).efFreeSlot 0).2 ∧
      ¬ (blobWithKey []).FreeKeeps 0 ((blobWithKey []).efFreeSlot 0).2 := by
  have hrun : (blobWithKey []).chained 0 = [1] ∧ (blobWithKey []).mapped 1 = 1 ∧
      (blobWithKey []).Mapped ∧ (blobWithKey []).txnActive = false ∧ ¬ (blobWithKey []).FreeSteady 0 ∧
      (blobWithKey []).sb.schemaVersion = schemaVersion ∧ (blobWithKey []).FreeListEnds ∧
      ((blobWithKey []).efFreeSlot 0).1 = .ok := by decide +kernel
  have hbusy : (blobWithKey [false, true, false, true]).Mapped ∧
      (blobWithKey [false, true, false, true]).txnActive = false ∧
      (blobWithKey [false, true, false, true]).FreeSteady 0 ∧
      ((blobWithKey [false, true, false, true]).efFreeSlot 0).1 = .ok := by decide +kernel
  obtain ⟨hchain, hmapped, hm, hidle, hs, hv, hends, hok⟩ := hrun
  obtain ⟨hm', hidle', hs', hok'⟩ := hbusy
  refine ⟨hchain, hmapped, (efFreeSlot_keeps_iff hm' hidle' hok').1 hs', fun hk => hs ?_⟩
  exact (efFreeSlot_keeps_iff hm hidle hok).2 (fun _ => hv) hends hk

/-- With 32 buckets and no entry in them, the removal before the release shrinks the index and moves
the slots: the release succeeds, and the slot is still in use. -/
theorem efFreeSlot_relocates :
    let db := (newMemory 2 32).efAllocSlot.2.2
    db.Mapped ∧ db.txnActive = false ∧ db.chained 0 = [] ∧ (db.efFreeSlot 0).1 = .ok ∧
      ((db.efFreeSlot 0).2.slot 0).status = statusUsed ∧
      ¬ db.FreeKeeps 0 (db.efFreeSlot 0).2 := by
  have hrun : let db := (newMemory 2 32).efAllocSlot.2.2
      db.Mapped ∧ db.txnActive = false ∧ db.chained 0 = [] ∧ (db.efFreeSlot 0).1 = .ok ∧
        ((db.efFreeSlot 0).2.slot 0).status = statusUsed := by decide +kernel
  obtain ⟨h₁, h₂, h₃, h₄, h₅⟩ := hrun
  refine ⟨h₁, h₂, h₃, h₄, h₅, fun hk => ?_⟩
  have hfree := hk.freed 0 List.mem_cons_self
  rw [h₅] at hfree
  cases hfree

end Db

end Endfields.Model
