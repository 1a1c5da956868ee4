import Endfields.Pool.Alloc
import Endfields.Spec.Write

/-!
# Slot writes on the pool

The calls that work on slots in use: release, links, payloads and blobs. Each leaves a pool, and
leaves the slots of the queue alone.

* `Db.PoolKept g q k db db'`: from a pool of `g` with the queue `q` the call leads to a pool of at
  most `k` more slots with the same queue; with `Db.PoolSealed` what was sealed is sealed after it.
* **The calls**: `efFreeSlot_sealed`, `efSetNextOffset_sealed`, `efWritePayload_sealed`,
  `efWriteBlob_sealed`.
-/

namespace Endfields.Model

open Endfields.Lib

/-! ### The slots of a blob -/

/-- The overflow slots that `n` bytes take. -/
def overflowNeed (n : ℕ) : ℕ := (n + 47) / 48

/-- One slot takes 48 bytes of the rest.
Source: `ef_blob.c`, `ef_write_blob` -/
lemma overflowNeed_step {n : ℕ} (hn : 0 < n) : overflowNeed n = overflowNeed (n - 48) + 1 := by
  unfold overflowNeed
  omega

namespace Db

variable {g g' : Geometry} {db db₁ db₂ : Db} {i j k n : ℕ} {l q : List ℕ}

/-- A call on a pool of `g` that leaves the queue `q` alone and adds at most `k` slots. -/
def PoolKept (g : Geometry) (q : List ℕ) (k : ℕ) (db db' : Db) : Prop :=
  ∃ g' l', g.n ≤ g'.n ∧ g'.n ≤ g.n + k ∧ (db'.view g').Pool g' l' q ∧
    ∀ j ∈ q, (db'.view g').slots j = (db.view g).slots j

/-- A call that moreover seals what it has written. -/
def PoolSealed (g : Geometry) (q : List ℕ) (k : ℕ) (db db' : Db) : Prop :=
  ∃ g' l', g.n ≤ g'.n ∧ g'.n ≤ g.n + k ∧ (db'.view g').Pool g' l' q ∧
    (∀ j ∈ q, (db'.view g').slots j = (db.view g).slots j) ∧ (db.view g).Seals g g' (db'.view g')

/-- A pool that is sealed is kept. -/
lemma PoolSealed.kept (h : PoolSealed g q k db db₁) : PoolKept g q k db db₁ := by
  obtain ⟨g', l', hle, hle', hpool, hq, -⟩ := h
  exact ⟨g', l', hle, hle', hpool, hq⟩

/-- A handle with the same list and sealed slots. -/
lemma poolSealed_of_pool (h : (db₁.view g).Pool g l q)
    (hq : ∀ j ∈ q, (db₁.view g).slots j = (db.view g).slots j)
    (hs : (db.view g).Seals g g (db₁.view g)) (k : ℕ) : PoolSealed g q k db db₁ :=
  ⟨g, l, le_rfl, Nat.le_add_right _ _, h, hq, hs⟩

/-- A handle with the same view. -/
lemma poolSealed_of_view (h : (db.view g).Pool g l q) (hview : db₁.view g = db.view g) (k : ℕ) :
    PoolSealed g q k db db₁ :=
  poolSealed_of_pool (by rwa [hview]) (fun j _ => by rw [hview]) (View.Seals.of_eq hview) k

/-- The nodes of the queue have the status of queued slots. -/
lemma status_of_mem_queue (h : (db.view g).Pool g l q) (hj : j ∈ q) :
    ((db.view g).slots j).status = statusQueued ∧ j < g.n := by
  rcases h.queue with ⟨-, rfl⟩ | ⟨d, hq⟩
  · cases hj
  · exact ⟨hq.queued j hj, hq.lt_of_mem hj⟩

/-- A slot whose status is not one of the queue's is none of its slots. -/
lemma off_of_status (h : (db.view g).Pool g l q)
    (hst : ((db.view g).slots i).status = statusUsed ∨
      ((db.view g).slots i).status = statusOverflow) : (db.view g).OffQueue g q i := by
  refine h.queue.off_of_status ?_ ?_ <;> rcases hst with hs | hs <;> rw [hs] <;> simp

/-! ### Release -/

/-- The number of slots of the chain that starts at `off`, if it has at most `fuel` links, consists
of overflow slots and ends. -/
def chainSlots (db : Db) : ℕ → ℕ → Option ℕ
  | 0, _ => none
  | fuel + 1, off =>
      if off = 0 then some 0
      else
        match db.efOffsetToSlotId off with
        | .error _ => none
        | .ok i =>
            if (db.slot i).status ≠ statusOverflow then none
            else (db.chainSlots fuel (db.slot i).nextOffset).map (· + 1)

/-- A chain that avoids slot `i` does not depend on it. -/
lemma chainSlots_of_avoids (h : (db.view g).Bound g) (h₁ : (db₁.view g).Bound g)
    (hsame : ∀ a, a ≠ i → (db₁.view g).slots a = (db.view g).slots a)
    (hi : ((db₁.view g).slots i).status ≠ statusOverflow) {fuel off : ℕ}
    (hn : db₁.chainSlots fuel off = some n) : db.chainSlots fuel off = some n := by
  induction fuel generalizing off n with
  | zero => cases hn
  | succ fuel ih =>
      rw [chainSlots] at hn ⊢
      by_cases h0 : off = 0
      · rw [if_pos h0] at hn ⊢
        exact hn
      rw [if_neg h0] at hn ⊢
      rcases hid : db₁.efOffsetToSlotId off with e | a
      · rw [hid] at hn
        cases hn
      have ha := (efOffsetToSlotId_eq_ok_iff h₁ _ _).mp hid
      rw [hid] at hn
      rw [(efOffsetToSlotId_eq_ok_iff h _ _).mpr ha]
      simp only at hn ⊢
      rw [slot_eq h₁.cap ha.1] at hn
      rw [slot_eq h.cap ha.1]
      split_ifs at hn with hst
      have hai : a ≠ i := by
        rintro rfl
        exact hst hi
      rw [hsame a hai] at hn hst
      rw [if_neg hst]
      obtain ⟨m, hm, rfl⟩ := Option.map_eq_some_iff.mp hn
      rw [ih hm]
      rfl

/-- **The release of a chain** gives back overflow slots only. -/
lemma releaseChainLoop_pool (h : (db.view g).Pool g l q) (fuel off : ℕ) :
    ∃ l', ((releaseChainLoop fuel off db).2.view g).Pool g l' q ∧
      ((releaseChainLoop fuel off db).1 = .ok →
        ∃ n, db.chainSlots fuel off = some n ∧ l'.length = l.length + n) ∧
      ((releaseChainLoop fuel off db).2.view g).core = (db.view g).core ∧
      (∀ j, ((db.view g).slots j).status ≠ statusOverflow →
        ((releaseChainLoop fuel off db).2.view g).slots j = (db.view g).slots j) ∧
      (db.view g).Seals g g ((releaseChainLoop fuel off db).2.view g) := by
  induction fuel generalizing off db l with
  | zero => exact ⟨l, h, fun h0 => (by cases h0), rfl, fun _ _ => rfl, View.Seals.refl _ _⟩
  | succ fuel ih =>
      rw [releaseChainLoop, chainSlots]
      by_cases h0 : off = 0
      · rw [if_pos h0, if_pos h0]
        exact ⟨l, h, fun _ => ⟨0, rfl, rfl⟩, rfl, fun _ _ => rfl, View.Seals.refl _ _⟩
      rw [if_neg h0, if_neg h0]
      rcases hid : db.efOffsetToSlotId off with e | j
      · refine ⟨l, h, fun hok => ?_, rfl, fun _ _ => rfl, View.Seals.refl _ _⟩
        have hok : e = .ok := hok
        rw [hok] at hid
        exact absurd hid efOffsetToSlotId_ne_error_ok
      have hj := ((efOffsetToSlotId_eq_ok_iff h.toBound _ _).mp hid).1
      simp only
      rw [slot_eq h.cap hj, slotPtr_eq h.cap, slotAt_eq db hj]
      by_cases hst : ((db.view g).slots j).status = statusOverflow
      swap
      · rw [if_pos hst]
        exact ⟨l, h, fun h0 => (by cases h0), rfl, fun _ _ => rfl, View.Seals.refl _ _⟩
      rw [if_neg (not_not.mpr hst), if_neg (not_not.mpr hst)]
      have hfree : ((db.view g).slots j).status ≠ statusFree := by rw [hst]; simp
      have hoff := off_of_status h (.inr hst)
      have hpool₁ : ((db.setNext (g.ptr j) 0).view g).Pool g l q := by
        rw [view_setNext hj]
        exact h.setSlot hfree hfree hoff
      have hslots₁ : ∀ a, a ≠ j →
          ((db.setNext (g.ptr j) 0).view g).slots a = (db.view g).slots a := by
        intro a ha
        rw [view_setNext hj, View.setSlot_slots, Function.update_of_ne ha]
      have hstat₁ : (((db.setNext (g.ptr j) 0).view g).slots j).status = statusOverflow := by
        rw [view_setNext hj, View.setSlot_slots, Function.update_self]
        exact hst
      have hseal₁ : (db.view g).SealsBut g j g ((db.setNext (g.ptr j) 0).view g) := by
        rw [view_setNext hj]
        exact ((View.Seals.refl _ _).but j).write _
      have hview₂ := (efReturnSlotToPool_calm hpool₁.toCalm hj).2
      obtain ⟨hok, hpool₂⟩ := efReturnSlotToPool_pool hpool₁ hj (by rw [hstat₁]; simp)
        (off_of_status hpool₁ (.inr hstat₁))
      generalize (db.setNext (g.ptr j) 0).efReturnSlotToPool j (g.ptr j) = r at hok hview₂ hpool₂
      obtain ⟨e, db₂⟩ := r
      simp only at hok
      subst hok
      obtain ⟨l', hpool, hlen, hcore, hkept, hseals⟩ := ih hpool₂ ((db.view g).slots j).nextOffset
      have hcore₁ : ((db.setNext (g.ptr j) 0).view g).core = (db.view g).core := rfl
      have hsame : ∀ a, a ≠ j → (db₂.view g).slots a = (db.view g).slots a := by
        intro a ha
        rw [hview₂, View.pushSlot_slots_of_ne ha, hslots₁ a ha]
      have hfree₂ : ((db₂.view g).slots j).status ≠ statusOverflow := by
        rw [hview₂, View.pushSlot_slots_self]
        simp [View.released]
      rw [hview₂] at hseals hcore
      refine ⟨l', hpool, fun hok => ?_, hcore.trans hcore₁, fun a ha => ?_,
          hseal₁.pushSlot.trans hseals⟩
      · obtain ⟨n, hn, hlen⟩ := hlen hok
        rw [chainSlots_of_avoids h.toBound hpool₂.toBound hsame hfree₂ hn]
        exact ⟨n + 1, rfl, by rw [hlen, List.length_cons]; omega⟩
      have haj : a ≠ j := by
        rintro rfl
        exact ha hst
      have hslots₂ : (db₂.view g).slots a = (db.view g).slots a := by
        rw [hview₂, View.pushSlot_slots_of_ne haj, hslots₁ a haj]
      rw [← hslots₂]
      exact hkept a (by rw [hslots₂]; exact ha)

/-- The number of overflow slots behind slot `i`, if they make up a chain that ends. -/
def oldChain (db : Db) (i : ℕ) : Option ℕ :=
  db.chainSlots (17 * (db.sb.maxSlots + 1)) (db.slot i).nextOffset

/-- A stored error leaves the chains alone. -/
lemma chainSlots_setError (e : Err) (fuel off : ℕ) :
    (db.setError e).chainSlots fuel off = db.chainSlots fuel off := by
  induction fuel generalizing off with
  | zero => rfl
  | succ fuel ih =>
      have hid : (db.setError e).efOffsetToSlotId off = db.efOffsetToSlotId off := rfl
      have hslot : ∀ j, (db.setError e).slot j = db.slot j := fun _ => rfl
      rw [chainSlots, chainSlots]
      simp only [hid, hslot, ih]

/-- A stored error leaves the old chain alone. -/
lemma oldChain_setError (e : Err) : (db.setError e).oldChain i = db.oldChain i :=
  chainSlots_setError e _ _

/-- The release of the chain behind slot `i`. -/
lemma efBlobReleaseChain_pool (h : (db.view g).Pool g l q) (hi : i < g.n)
    (hst : ((db.view g).slots i).status = statusUsed) :
    ∃ l', ((db.efBlobReleaseChain i (g.ptr i)).2.view g).Pool g l' q ∧
      ((db.efBlobReleaseChain i (g.ptr i)).1 = .ok →
        ∃ n, db.oldChain i = some n ∧ l'.length = l.length + n) ∧
      ((db.efBlobReleaseChain i (g.ptr i)).2.view g).core = (db.view g).core ∧
      (((db.efBlobReleaseChain i (g.ptr i)).2.view g).slots i).status = statusUsed ∧
      (∀ j, j ≠ i → ((db.view g).slots j).status ≠ statusOverflow →
        ((db.efBlobReleaseChain i (g.ptr i)).2.view g).slots j = (db.view g).slots j) ∧
      (db.view g).Seals g g ((db.efBlobReleaseChain i (g.ptr i)).2.view g) := by
  have hfree : ((db.view g).slots i).status ≠ statusFree := by rw [hst]; simp
  have hview₁ : ((db.setNext (g.ptr i) 0).efSlotHeaderCrcStore i (g.ptr i)).view g =
      (db.view g).setSlot i
        (Slot.sealed (db.view g).sb.slotCrc i { (db.view g).slots i with nextOffset := 0 }) := by
    rw [view_efSlotHeaderCrcStore hi, view_setNext hi]
    simp
  unfold efBlobReleaseChain
  simp only
  generalize (db.setNext (g.ptr i) 0).efSlotHeaderCrcStore i (g.ptr i) = db₁ at hview₁ ⊢
  have hpool₁ : (db₁.view g).Pool g l q := by
    rw [hview₁]
    exact h.setSlot hfree (by rw [Slot.sealed_status]; exact hfree) (off_of_status h (.inl hst))
  have hstat₁ : ((db₁.view g).slots i).status = statusUsed := by
    rw [hview₁, View.setSlot_slots, Function.update_self, Slot.sealed_status]
    exact hst
  obtain ⟨l', hpool, hlen, hcore, hkept, hseals⟩ := releaseChainLoop_pool hpool₁
      (17 * (db₁.sb.maxSlots + 1))
    (db.slotAt (g.ptr i)).nextOffset
  have hseal₁ : (db.view g).Seals g g (db₁.view g) := by
    rw [hview₁]
    exact View.Seals.sealSlot i _
  refine ⟨l', hpool, fun hok => ?_, by rw [hcore, hview₁]; rfl, ?_, fun j hji hj => ?_,
    hseal₁.trans hseals⟩
  · obtain ⟨n, hn, hlen⟩ := hlen hok
    have hmax : db.sb.maxSlots = db₁.sb.maxSlots := h.maxSlots.trans hpool₁.maxSlots.symm
    refine ⟨n, ?_, hlen⟩
    unfold oldChain
    rw [hmax, slot_eq h.cap hi, ← slotAt_eq db hi]
    refine chainSlots_of_avoids h.toBound hpool₁.toBound (fun a ha => ?_) (by rw [hstat₁]; simp) hn
    rw [hview₁, View.setSlot_slots, Function.update_of_ne ha]
  · rw [hkept i (by rw [hstat₁]; simp)]
    exact hstat₁
  · have hslots₁ : (db₁.view g).slots j = (db.view g).slots j := by
      rw [hview₁, View.setSlot_slots, Function.update_of_ne hji]
    rw [hkept j (by rw [hslots₁]; exact hj), hslots₁]

/-- Giving back a slot that is in use, after what may have been chained to it. -/
lemma efReturnSlotToPool_sealed (h : (db₁.view g).Pool g l q) (hi : i < g.n)
    (hst : ((db₁.view g).slots i).status ≠ statusFree) (hoff : (db₁.view g).OffQueue g q i)
    (hq : ∀ j ∈ q, (db₁.view g).slots j = (db.view g).slots j)
    (hs : (db.view g).SealsBut g i g (db₁.view g)) :
    PoolSealed g q 0 db (db₁.efReturnSlotToPool i (g.ptr i)).2 := by
  obtain ⟨-, hpool⟩ := efReturnSlotToPool_pool h hi hst hoff
  have hview := (efReturnSlotToPool_calm h.toCalm hi).2
  refine poolSealed_of_pool hpool (fun j hj => ?_) ?_ 0
  · have hji : j ≠ i := fun heq => hoff.1 (heq ▸ hj)
    rw [hview, View.pushSlot_slots_of_ne hji, hq j hj]
  · rw [hview]
    exact hs.pushSlot

/-- **`ef_free_slot`** on a pool. -/
lemma efFreeSlot_sealed (h : (db.view g).Pool g l q) (i : ℕ) :
    PoolSealed g q 0 db (db.efFreeSlot i).2 := by
  by_cases hacc : db.freeAccepts i
  swap
  · exact poolSealed_of_view h (efFreeSlot_of_not_accepts h.toBound hacc).2 0
  have hmax : db.sb.maxSlots = g.n := h.maxSlots
  have hi : i < g.n := hmax ▸ hacc.1
  unfold freeAccepts at hacc
  rw [slot_eq h.cap hi] at hacc
  obtain ⟨-, h1, h2, h3, h4⟩ := hacc
  have hoff : (db.view g).OffQueue g q i := h.queue.off_of_status h2 fun hd => h3 (.inl hd)
  have hslot : (db.setError .ok).slotAt (g.ptr i) = (db.view g).slots i := slotAt_eq db hi
  have hvalid : (db.setError .ok).efSlotHeaderCrcValid i ((db.view g).slots i) =
      db.efSlotHeaderCrcValid i ((db.view g).slots i) := rfl
  have hpool₀ : ((db.setError .ok).view g).Pool g l q := h
  unfold efFreeSlot
  rw [efDbRequireWrite_eq h.writable]
  simp only
  rw [efPeekSlot_of_lt h.toBound hi]
  simp only [hslot, hvalid]
  rw [if_neg h1, if_neg h2, if_neg h3, if_neg h4]
  by_cases hused : ((db.view g).slots i).status = statusUsed
  · rw [if_pos hused]
    obtain ⟨l₁, hpool₁, -, -, hstat₁, hkept₁, hseals₁⟩ := efBlobReleaseChain_pool hpool₀ hi hused
    rw [view_setError] at hseals₁
    have hq₁ : ∀ j ∈ q, (((db.setError .ok).efBlobReleaseChain i (g.ptr i)).2.view g).slots j =
        (db.view g).slots j := by
      intro j hj
      have hjq := (status_of_mem_queue h hj).1
      refine hkept₁ j (fun heq => hoff.1 (heq ▸ hj)) ?_
      show ((db.view g).slots j).status ≠ _
      rw [hjq]
      simp
    generalize (db.setError .ok).efBlobReleaseChain i (g.ptr i) = r at hpool₁ hstat₁ hq₁ hseals₁
    obtain ⟨e, db₁⟩ := r
    cases e with
    | ok =>
        have hidle : db₁.txnActive = false := hpool₁.idle
        simp only [hidle, Bool.false_eq_true, if_false]
        exact efReturnSlotToPool_sealed hpool₁ hi (by rw [hstat₁]; simp)
          (off_of_status hpool₁ (.inl hstat₁)) hq₁ (hseals₁.but i)
    | _ => exact poolSealed_of_pool hpool₁ hq₁ hseals₁ 0
  · rw [if_neg hused]
    have hidle : (db.setError .ok).txnActive = false := h.idle
    simp only [hidle, Bool.false_eq_true, if_false]
    exact efReturnSlotToPool_sealed hpool₀ hi h1 hoff (fun _ _ => rfl) ((View.Seals.refl _ _).but i)

/-! ### Links and payloads -/

/-- A slot in use that is written, stays in use and is sealed. -/
lemma poolSealed_of_write (h : (db₁.view g).Pool g l q) {s : Slot}
    (hst : ((db₁.view g).slots i).status = statusUsed) (hs : s.status ≠ statusFree)
    (hview : db₂.view g = (db₁.view g).setSlot i (Slot.sealed (db₁.view g).sb.slotCrc i s))
    (hq : ∀ j ∈ q, (db₁.view g).slots j = (db.view g).slots j)
    (hseals : (db.view g).Seals g g (db₁.view g)) : PoolSealed g q k db db₂ := by
  have hoff := off_of_status h (.inl hst)
  refine poolSealed_of_pool (l := l) ?_ (fun j hj => ?_) ?_ k
  · rw [hview]
    exact h.setSlot (by rw [hst]; simp) (by rw [Slot.sealed_status]; exact hs) hoff
  · have hji : j ≠ i := fun heq => hoff.1 (heq ▸ hj)
    rw [hview, View.setSlot_slots, Function.update_of_ne hji, hq j hj]
  · rw [hview]
    exact hseals.trans (View.Seals.sealSlot i s)

/-- **`ef_set_next_offset`** on a pool. -/
lemma efSetNextOffset_sealed (h : (db.view g).Pool g l q) (i off : ℕ) :
    PoolSealed g q 0 db (db.efSetNextOffset i off).2 := by
  unfold efSetNextOffset
  rw [efDbRequireWrite_eq h.writable]
  simp only
  by_cases hi : i < g.n
  swap
  · rw [efGetSlot_of_ge h.toBound (by omega)]
    exact poolSealed_of_view h rfl 0
  rw [efGetSlot_of_lt h.toBound hi]
  by_cases hcrc : ((db.view g).slots i).crcValid (db.view g).sb.slotCrc i = true
  swap
  · rw [if_neg hcrc]
    exact poolSealed_of_view h rfl 0
  rw [if_pos hcrc]
  have hslot : (db.setError .ok).slotAt (g.ptr i) = (db.view g).slots i := slotAt_eq db hi
  have hidle : (db.setError .ok).txnActive = false := h.idle
  simp only [hslot]
  by_cases hst : ((db.view g).slots i).status = statusUsed
  swap
  · rw [if_pos hst]
    exact poolSealed_of_view h rfl 0
  rw [if_neg (not_not.mpr hst)]
  by_cases hchain : (db.setError .ok).efSlotHasOverflowChain (g.ptr i) = true
  · rw [if_pos hchain]
    exact poolSealed_of_view h rfl 0
  rw [if_neg hchain]
  generalize (if off = 0 then .ok 0 else (db.setError .ok).efOffsetToSlotId off : Except Err ℕ) = r
  rcases r with e | _
  · exact poolSealed_of_view h rfl 0
  · simp only [hidle, Bool.false_eq_true, false_and, if_false]
    refine poolSealed_of_write (s := { (db.view g).slots i with nextOffset := off % u64 }) h hst ?_ ?_
      (fun _ _ => rfl) (View.Seals.refl _ _)
    · show ((db.view g).slots i).status ≠ _
      rw [hst]
      simp
    · show Db.view g (efSlotHeaderCrcStore _ i (g.ptr i)) = _
      rw [view_efSlotHeaderCrcStore hi, view_setNext hi]
      simp

/-- **`ef_write_payload`** on a slot that is free or used. -/
lemma efWritePayload_sealed (h : (db.view g).Pool g l q) (data : List UInt8)
    (hst : i < g.n → ((db.view g).slots i).status = statusFree ∨
      ((db.view g).slots i).status = statusUsed) :
    PoolSealed g q 0 db (db.efWritePayload i data).2 := by
  have hschema : (db.view g).sb.schemaVersion = schemaVersion := h.schema
  unfold efWritePayload
  rw [efDbRequireWrite_eq h.writable]
  simp only
  by_cases hlen : 48 < data.length
  · rw [if_pos hlen]
    exact poolSealed_of_view h rfl 0
  rw [if_neg hlen, efPayloadCapacity_eq hschema, if_neg hlen]
  by_cases hi : i < g.n
  swap
  · rw [efPeekSlot_of_ge h.toBound (by omega)]
    exact poolSealed_of_view h rfl 0
  rw [efPeekSlot_of_lt h.toBound hi]
  have hslot : (db.setError .ok).slotAt (g.ptr i) = (db.view g).slots i := slotAt_eq db hi
  simp only [hslot]
  have hpool₀ : ((db.setError .ok).view g).Pool g l q := h
  -- once the slot is in use, its payload is written
  have hwrite : ∀ (db₁ : Db) (l₁ : List ℕ), (db₁.view g).Pool g l₁ q →
      ((db₁.view g).slots i).status = statusUsed →
      (∀ j ∈ q, (db₁.view g).slots j = (db.view g).slots j) →
      (db.view g).Seals g g (db₁.view g) →
      PoolSealed g q 0 db ((((db₁.fillPayload (g.ptr i) data).setStatus (g.ptr i)
        statusUsed).efSlotHeaderCrcStore i (g.ptr i)).setError .ok) := by
    intro db₁ l₁ hpool₁ hst₁ hq₁ hseals₁
    refine poolSealed_of_write (s := { (db₁.view g).slots i with
      status := statusUsed, payload := padded data }) hpool₁ hst₁ (by simp) ?_ hq₁ hseals₁
    · rw [view_setError, view_efSlotHeaderCrcStore hi, view_setStatus hi,
        view_fillPayload hpool₁.schema hi (by omega)]
      simp
  rcases hst hi with hfree | hused
  · simp only [hfree, ne_eq, not_true, if_true, if_false]
    obtain ⟨hok, ⟨l₁, hpool₁, -⟩, -, hused₁, hkept₁, hseals₁⟩ := efClaimSlot_pool hpool₀ hi hfree
    generalize (db.setError .ok).efClaimSlot i = r at hok hpool₁ hused₁ hkept₁ hseals₁
    obtain ⟨e, db₁⟩ := r
    simp only at hok hpool₁ hused₁ hkept₁ hseals₁
    subst hok
    have hidle : db₁.txnActive = false := hpool₁.idle
    simp only [hidle, Bool.false_eq_true, if_false]
    refine hwrite db₁ l₁ hpool₁ hused₁ (fun j hj => ?_) hseals₁
    obtain ⟨hjq, hjn⟩ := status_of_mem_queue h hj
    refine hkept₁ j hjn ?_
    show ((db.view g).slots j).status ≠ _
    rw [hjq]
    simp
  · have hne : ((db.view g).slots i).status ≠ statusFree := by rw [hused]; simp
    rw [if_pos hne, if_neg hne]
    by_cases hbad : efSlotStatusHasCrc ((db.view g).slots i).status = true ∧
        (db.setError .ok).efSlotHeaderCrcValid i ((db.view g).slots i) = false
    · rw [if_pos hbad]
      exact poolSealed_of_view h rfl 0
    · rw [if_neg hbad]
      have hidle : (db.setError .ok).txnActive = false := h.idle
      simp only [hidle, Bool.false_eq_true, if_false]
      exact hwrite _ l hpool₀ hused (fun _ _ => rfl) (View.Seals.refl _ _)

/-! ### Blobs -/

/-- A write inside the payload of a slot in use. -/
lemma view_of_payload_write (db : Db) {m : Mem} (hi : i < g.n)
    (h : ∀ x, x < g.ptr i + 8 ∨ g.ptr i + 56 ≤ x → m x = db.mem x) :
    ∃ bs, (db.withMem m).view g =
      (db.view g).setSlot i { (db.view g).slots i with payload := bs } := by
  refine ⟨(Slot.read m (g.ptr i)).payload, ?_⟩
  have hload : ∀ a w, g.ptr i ≤ a → a + w ≤ g.ptr i + 8 ∨ g.ptr i + 56 ≤ a → load m a w =
      load db.mem a w :=
    fun a w _ haw => load_congr fun x hx hx' => h x (by omega)
  rw [view_of_slot_write hi fun x hx => h x (by omega), ← slotAt_eq db hi]
  have hread : Slot.read m (g.ptr i) =
      { Slot.read db.mem (g.ptr i) with payload := (Slot.read m (g.ptr i)).payload } := by
    simp only [Slot.read, hload (g.ptr i) 4 le_rfl (.inl (by omega)),
      hload (g.ptr i + 4) 4 (by omega) (.inl (by omega)),
      hload (g.ptr i + 56) 8 (by omega) (.inr le_rfl)]
  exact congrArg _ hread

/-- The stores that blank the head of a blob. -/
lemma view_blankBlob (db : Db) (hschema : (db.view g).sb.schemaVersion = schemaVersion) (hi : i < g.n) :
    let p := db.efSlotPayloadPtr (g.ptr i)
    let db₁ := (db.store p 4 0).store (p + 4) 4 0
    ∃ bs, ((db₁.zero (p + 8) db₁.efBlobInlineCapacity).efSlotHeaderCrcStore i (g.ptr i)).view g =
      (db.view g).setSlot i (Slot.sealed (db.view g).sb.slotCrc i
        { (db.view g).slots i with payload := bs }) := by
  have hptr : db.efSlotPayloadPtr (g.ptr i) = g.ptr i + 8 := efSlotPayloadPtr_eq hschema _
  simp only [hptr]
  generalize hdb₁ : (db.store (g.ptr i + 8) 4 0).store (g.ptr i + 8 + 4) 4 0 = db₁
  have hcap : db₁.efBlobInlineCapacity = 40 := by
    unfold efBlobInlineCapacity
    rw [efPayloadCapacity_eq (g := g)]
    have hmem : ∀ x, x < 64 → db₁.mem x = db.mem x := by
      intro x hx
      have hp := g.base_le_ptr i
      have hb := g.base_ge
      rw [← hdb₁]
      refine (store_apply_of_outside (.inl (by omega))).trans ?_
      exact store_apply_of_outside (.inl (by omega))
    have hsb : (db₁.view g).sb = (db.view g).sb := Superblock.read_congr hmem
    rw [hsb]
    exact hschema
  rw [hcap]
  obtain ⟨bs, hview⟩ := view_of_payload_write (g := g) db (i := i)
    (m := memset db₁.mem (g.ptr i + 8 + 8) 0 40) hi (by
      intro x hx
      rw [← hdb₁]
      refine (memset_apply_of_outside (by omega)).trans ?_
      exact (store_apply_of_outside (by omega)).trans (store_apply_of_outside (by omega)))
  have hzero : (db₁.zero (g.ptr i + 8 + 8) 40).view g =
      (db.withMem (memset db₁.mem (g.ptr i + 8 + 8) 0 40)).view g := by
    rw [← hdb₁]
    rfl
  refine ⟨bs, ?_⟩
  rw [view_efSlotHeaderCrcStore hi, hzero, hview]
  simp

/-- The clean-up of a blob write, after the release of the chain. -/
lemma view_blobAbandon (hi : i < g.n) (hr : (db.efBlobReleaseChain i (g.ptr i)).2 = db₁)
    (hschema : (db₁.view g).sb.schemaVersion = schemaVersion) :
    ∃ bs, (db.blobAbandon i (g.ptr i)).view g = (db₁.view g).setSlot i
      (Slot.sealed (db₁.view g).sb.slotCrc i { (db₁.view g).slots i with payload := bs }) := by
  unfold blobAbandon
  rw [hr]
  exact view_blankBlob db₁ hschema hi

/-- What an allocation of an overflow slot comes to. -/
lemma efAllocOverflowSlot_pool (h : (db.view g).Pool g l q) (hroom : roomFor (g.n + 1))
    (hgrow : (db.view g).Dry → (db.view g).core.Unfailing) :
    let r := db.efAllocOverflowSlot
    ∃ g' l', g.n ≤ g'.n ∧ g'.n ≤ g.n + 1 ∧ (r.2.2.2.view g').Pool g' l' q ∧
      View.Draws g (db.view g) l g' (r.2.2.2.view g') l' ∧
      (db.view g).KeepsUsed (r.2.2.2.view g') g.n ∧ (db.view g).Seals g g' (r.2.2.2.view g') ∧
      (r.1 = .ok → r.2.1 < g'.n ∧ r.2.2.1 = g'.ptr r.2.1 ∧
        ((r.2.2.2.view g').slots r.2.1).status = statusOverflow ∧
        (r.2.1 < g.n → ((db.view g).slots r.2.1).status = statusFree)) := by
  obtain ⟨g', l', halloc, hseals⟩ := efAllocEx_allocated h hroom hgrow true
  unfold efAllocOverflowSlot efAlloc
  generalize db.efAllocEx true = r at halloc hseals
  obtain ⟨e, a, db₁⟩ := r
  simp only at hseals
  cases e with
  | ok =>
      have ha : a < g'.n := halloc.lt rfl
      have hused : ((db₁.view g').slots a).status = statusUsed := halloc.used rfl
      have hpool₁ : (db₁.view g').Pool g' l' q := halloc.pool
      have hdraws₁ : View.Draws g (db.view g) l g' (db₁.view g') l' := halloc.draws
      have hkept₁ : (db.view g).KeepsUsed (db₁.view g') g.n := halloc.kept
      have hfresh : a < g.n → ((db.view g).slots a).status = statusFree := halloc.fresh rfl
      simp only
      rw [efGetSlot_of_lt hpool₁.toBound ha]
      by_cases hcrc : ((db₁.view g').slots a).crcValid (db₁.view g').sb.slotCrc a = true
      swap
      · rw [if_neg hcrc]
        exact ⟨g', l', halloc.le, halloc.le_succ, hpool₁, hdraws₁, hkept₁, hseals,
          fun h0 => (by cases h0)⟩
      rw [if_pos hcrc]
      simp only
      have hview : (((db₁.setError .ok).setStatus (g'.ptr a)
          statusOverflow).efSlotHeaderCrcStore a (g'.ptr a)).view g' =
          (db₁.view g').setSlot a (Slot.sealed (db₁.view g').sb.slotCrc a
            { (db₁.view g').slots a with status := statusOverflow }) := by
        rw [view_efSlotHeaderCrcStore ha, view_setStatus ha]
        simp
      refine ⟨g', l', halloc.le, halloc.le_succ, ?_, ?_, fun j hj hst => ?_, ?_,
        fun _ => ⟨ha, rfl, ?_, hfresh⟩⟩
      · rw [hview]
        exact hpool₁.setSlot (by rw [hused]; simp) (by rw [Slot.sealed_status]; simp)
          (off_of_status hpool₁ (.inl hused))
      · rw [hview]
        exact ⟨hdraws₁.length, hdraws₁.core, hdraws₁.stays⟩
      · have hja : j ≠ a := by
          rintro rfl
          exact hst (hfresh hj)
        rw [hview, View.setSlot_slots, Function.update_of_ne hja]
        exact hkept₁ j hj hst
      · rw [hview]
        exact hseals.trans (View.Seals.sealSlot a _)
      · rw [hview, View.setSlot_slots, Function.update_self, Slot.sealed_status]
  | _ =>
      exact ⟨g', l', halloc.le, halloc.le_succ, halloc.pool, halloc.draws, halloc.kept, hseals,
        fun h0 => (by cases h0)⟩

/-- The address of the mapping, in the view. -/
lemma mapAddr_eq (db : Db) (g : Geometry) : db.mapAddr = (db.view g).core.addr := by
  rfl

/-- A pointer is good as long as the mapping is where it was. -/
lemma reach_of_addr {ptr : Ptr} (h : db.mapAddr = ptr.base) : db.reach ptr = some ptr.offset := by
  unfold reach
  rw [if_pos h]

/-- A blob write so far: the pool of `g` has become one of `g'`, its head `i` is in use, and the
queue is as it was. -/
structure BlobPool (g : Geometry) (q : List ℕ) (db : Db) (i : ℕ) (g' : Geometry) (l' : List ℕ)
    (db' : Db) : Prop where
  le : g.n ≤ g'.n
  pool : (db'.view g').Pool g' l' q
  head : i < g'.n
  used : ((db'.view g').slots i).status = statusUsed
  queue : ∀ j ∈ q, (db'.view g').slots j = (db.view g).slots j

namespace BlobPool

variable {l' : List ℕ} (h : BlobPool g q db i g' l' db₁)

include h

/-- A growth keeps the slots' places: the buffer stays where it is.
Source: `ef_grow.c`, `ef_grow` -/
lemma ptr_eq (j : ℕ) (hc : (db.view g).Calm g) : g'.ptr j = g.ptr j :=
  View.ptr_of_cap_eq (h.pool.noIndex.trans hc.noIndex.symm) j

/-- Writing a slot that is used or of a chain. -/
lemma setSlot {s : Slot} (hj : ((db₁.view g').slots j).status = statusUsed ∨
      ((db₁.view g').slots j).status = statusOverflow)
    (hs : s.status = ((db₁.view g').slots j).status) (hview : db₂.view g' = (db₁.view g').setSlot j s) :
    BlobPool g q db i g' l' db₂ ∧
      ∀ a, ((db₂.view g').slots a).status = ((db₁.view g').slots a).status := by
  have hne : ((db₁.view g').slots j).status ≠ statusFree := by
    rcases hj with hj | hj <;> rw [hj] <;> simp
  have hoff := off_of_status h.pool hj
  have hstatus : ∀ a, ((db₂.view g').slots a).status = ((db₁.view g').slots a).status := by
    intro a
    rw [hview, View.setSlot_slots, Function.update_apply]
    split_ifs with haj
    · rw [hs, haj]
    · rfl
  refine ⟨⟨h.le, ?_, h.head, (hstatus i).trans h.used, fun a ha => ?_⟩, hstatus⟩
  · rw [hview]
    exact h.pool.setSlot hne (by rw [hs]; exact hne) hoff
  · have haj : a ≠ j := fun heq => hoff.1 (heq ▸ ha)
    rw [hview, View.setSlot_slots, Function.update_of_ne haj]
    exact h.queue a ha

/-- A stored error leaves the state of the blob alone. -/
lemma setError (e : Err) : BlobPool g q db i g' l' (db₁.setError e) :=
  ⟨h.le, h.pool, h.head, h.used, h.queue⟩

/-- The clean-up after a failed allocation, which seals the head. -/
lemma blobAbandon (hseals : (db.view g).SealsBut g i g' (db₁.view g')) :
    ∃ l'', BlobPool g q db i g' l'' (db₁.blobAbandon i (g'.ptr i)) ∧
      (db.view g).Seals g g' ((db₁.blobAbandon i (g'.ptr i)).view g') := by
  obtain ⟨l₂, hpool₂, -, -, hused₂, hkept₂, hseals₂⟩ :=
    efBlobReleaseChain_pool h.pool h.head h.used
  replace hseals := hseals.trans hseals₂
  have hq₂ : ∀ j ∈ q, ((db₁.efBlobReleaseChain i (g'.ptr i)).2.view g').slots j =
      (db.view g).slots j := by
    intro j hj
    have hjq := (status_of_mem_queue h.pool hj).1
    have hji : j ≠ i := by
      rintro rfl
      rw [h.used] at hjq
      simp at hjq
    rw [hkept₂ j hji (by rw [hjq]; simp)]
    exact h.queue j hj
  generalize hr : (db₁.efBlobReleaseChain i (g'.ptr i)).2 = db₂ at hpool₂ hused₂ hq₂ hseals
  have h₂ : BlobPool g q db i g' l₂ db₂ := ⟨h.le, hpool₂, h.head, hused₂, hq₂⟩
  obtain ⟨bs, hview₃⟩ := view_blobAbandon h.head hr hpool₂.schema
  have hstat : (Slot.sealed (db₂.view g').sb.slotCrc i
      { (db₂.view g').slots i with payload := bs }).status = ((db₂.view g').slots i).status :=
    Slot.sealed_status _ _ _
  refine ⟨l₂, (h₂.setSlot (.inl hused₂) hstat hview₃).1, ?_⟩
  rw [hview₃]
  exact hseals.seal _

/-- Sealing a slot of the blob. -/
lemma sealSlot (hj : j < g'.n) (hst : ((db₁.view g').slots j).status = statusUsed ∨
      ((db₁.view g').slots j).status = statusOverflow) :
    BlobPool g q db i g' l' (db₁.efSlotHeaderCrcStore j (g'.ptr j)) ∧
      ∀ a, (((db₁.efSlotHeaderCrcStore j (g'.ptr j)).view g').slots a).status =
        ((db₁.view g').slots a).status :=
  h.setSlot hst (Slot.sealed_status _ _ _) (view_efSlotHeaderCrcStore hj j)

/-- One round of the overflow loop: the new slot is filled and chained to the tail. -/
lemma chain {a t : ℕ} (ha : a < g'.n) (hast : ((db₁.view g').slots a).status = statusOverflow)
    (ht : t < g'.n) (htst : ((db₁.view g').slots t).status = statusUsed ∨
      ((db₁.view g').slots t).status = statusOverflow) {data : List UInt8} (hlen : data.length ≤ 48)
    (off : ℕ) :
    let db₂ := ((((db₁.fillPayload (g'.ptr a) data).setNext (g'.ptr t) off).efSlotHeaderCrcStore t
      (g'.ptr t)).efSlotHeaderCrcStore a (g'.ptr a))
    BlobPool g q db i g' l' db₂ ∧ ((db₂.view g').slots a).status = statusOverflow ∧
      (db₂.view g').core = (db₁.view g').core ∧ (db₁.view g').Seals g' g' (db₂.view g') := by
  -- both slots that are written are sealed
  have hseals : (db₁.view g').Seals g' g' ((((((db₁.fillPayload (g'.ptr a) data).setNext (g'.ptr t)
      off).efSlotHeaderCrcStore t (g'.ptr t)).efSlotHeaderCrcStore a (g'.ptr a))).view g') := by
    intro D hD
    rw [view_efSlotHeaderCrcStore ha, view_efSlotHeaderCrcStore ht, view_setNext ht,
      view_fillPayload h.pool.schema ha hlen]
    exact (((hD.write a _).write t _).seal _).seal _
  have hcore : ((((((db₁.fillPayload (g'.ptr a) data).setNext (g'.ptr t) off).efSlotHeaderCrcStore t
      (g'.ptr t)).efSlotHeaderCrcStore a (g'.ptr a))).view g').core = (db₁.view g').core := by
    rw [view_efSlotHeaderCrcStore ha, view_efSlotHeaderCrcStore ht, view_setNext ht,
      view_fillPayload h.pool.schema ha hlen]
    rfl
  obtain ⟨h₂, hs₂⟩ := h.setSlot (s := { (db₁.view g').slots a with payload := padded data })
    (.inr hast) rfl (view_fillPayload h.pool.schema ha hlen)
  generalize db₁.fillPayload (g'.ptr a) data = db₂ at h₂ hs₂ hseals hcore ⊢
  obtain ⟨h₃, hs₃⟩ := h₂.setSlot (s := { (db₂.view g').slots t with nextOffset := off % u64 })
    (by rw [hs₂]; exact htst) rfl (view_setNext ht)
  generalize db₂.setNext (g'.ptr t) off = db₃ at h₃ hs₃ hseals hcore ⊢
  obtain ⟨h₄, hs₄⟩ := h₃.sealSlot ht (by rw [hs₃, hs₂]; exact htst)
  generalize db₃.efSlotHeaderCrcStore t (g'.ptr t) = db₄ at h₄ hs₄ hseals hcore ⊢
  have hast₄ : ((db₄.view g').slots a).status = statusOverflow := by rw [hs₄, hs₃, hs₂, hast]
  obtain ⟨h₅, hs₅⟩ := h₄.sealSlot ha (.inr hast₄)
  exact ⟨h₅, (hs₅ a).trans hast₄, hcore, hseals⟩

/-- An allocation, whatever it returns, keeps what has been written of the blob. -/
lemma of_kept {g₂ : Geometry} {l₂ : List ℕ} (hle : g'.n ≤ g₂.n) (hpool : (db₂.view g₂).Pool g₂ l₂ q)
    (hkept : (db₁.view g').KeepsUsed (db₂.view g₂) g'.n) : BlobPool g q db i g₂ l₂ db₂ := by
  refine ⟨h.le.trans hle, hpool, lt_of_lt_of_le h.head hle, ?_, fun j hj => ?_⟩
  · rw [hkept i h.head (by rw [h.used]; simp)]
    exact h.used
  · obtain ⟨hjq, hjn⟩ := status_of_mem_queue h.pool hj
    rw [hkept j hjn (by rw [hjq]; simp)]
    exact h.queue j hj

/-- **The overflow loop** of a blob write, with a head and a tail that are pointers into the mapping
as it is. If it fails, the head has been sealed; else it has not, and the mapping is where it
was. -/
lemma blobOverflowLoop {t fuel base : ℕ} (hcalm : (db.view g).Calm g) (ht : t < g'.n)
    (htst : ((db₁.view g').slots t).status = statusUsed ∨
      ((db₁.view g').slots t).status = statusOverflow) (rest : List UInt8)
    (hroom : roomFor (g'.n + overflowNeed rest.length))
    (hseals : (db.view g).SealsBut g i g' (db₁.view g'))
    (hbase : db₁.mapAddr = base) (haff : (db₁.view g').Affords g' l' (overflowNeed rest.length)) :
    let r := Db.blobOverflowLoop i ⟨base, g.ptr i⟩ fuel ⟨base, g.ptr t⟩ t rest db₁
    ∃ g'' l'', g''.n ≤ g'.n + fuel ∧ BlobPool g q db i g'' l'' r.2 ∧
      (db.view g).SealsBut g i g'' (r.2.view g'') ∧
      (r.1 ≠ .ok → (db.view g).Seals g g'' (r.2.view g'')) ∧ (r.1 = .ok → r.2.mapAddr = base) := by
  induction fuel generalizing g' l' db₁ t rest with
  | zero => exact ⟨g', l', le_rfl, h, hseals, fun h0 => absurd rfl h0, fun _ => hbase⟩
  | succ fuel ih =>
      rw [Db.blobOverflowLoop]
      by_cases hrest : rest = []
      · rw [if_pos hrest]
        exact ⟨g', l', Nat.le_add_right _ _, h, hseals, fun h0 => absurd rfl h0, fun _ => hbase⟩
      rw [if_neg hrest]
      rw [overflowNeed_step (List.length_pos_iff.mpr hrest)] at haff hroom
      obtain ⟨g₂, l₂, hle, hle', hpool₂, hdraws₂, hkept₂, hseals₂, hok₂⟩ :=
        efAllocOverflowSlot_pool h.pool (roomFor_of_le hroom (by omega)) (haff.unfailing h.pool)
      generalize db₁.efAllocOverflowSlot = r at hpool₂ hdraws₂ hkept₂ hseals₂ hok₂
      obtain ⟨e, a, ov, db₂⟩ := r
      simp only at hpool₂ hdraws₂ hkept₂ hseals₂ hok₂
      replace hseals := hseals.trans hseals₂
      have h₂ : BlobPool g q db i g₂ l₂ db₂ := h.of_kept hle hpool₂ hkept₂
      have hptr : ∀ j, g₂.ptr j = g.ptr j := fun j => h₂.ptr_eq j hcalm
      -- the round has not moved the mapping
      obtain ⟨haff₂, haddr⟩ := haff.next h.pool hdraws₂
      have hbase₂ : db₂.mapAddr = base := by
        rw [mapAddr_eq db₂ g₂, haddr]
        exact hbase
      cases e with
      | ok =>
          obtain ⟨ha, hov, hast, hfresh⟩ := hok₂ rfl
          subst hov
          -- the tail is in use, so it is not the slot just allocated
          have htne : ((db₁.view g').slots t).status ≠ statusFree := by
            rcases htst with hs | hs <;> rw [hs] <;> simp
          have htst₂ : ((db₂.view g₂).slots t).status = statusUsed ∨
              ((db₂.view g₂).slots t).status = statusOverflow := by
            rw [hkept₂ t ht htne]
            exact htst
          have hchunk : db₂.efBlobOverflowChunkCap = 48 := efPayloadCapacity_eq hpool₂.schema
          have hreach : (db₂.fillPayload (g₂.ptr a) (rest.take 48)).reach ⟨base, g.ptr t⟩ =
              some (g.ptr t) := reach_of_addr hbase₂
          obtain ⟨h₃, hast₃, hcore₃, hseals₃⟩ := h₂.chain ha hast (lt_of_lt_of_le ht hle) htst₂
            (List.length_take_le 48 rest)
            ((db₂.fillPayload (g₂.ptr a) (rest.take 48)).efSlotToOffset a)
          simp only [hchunk, hreach]
          rw [← hptr t, ← hptr i]
          generalize ((((db₂.fillPayload (g₂.ptr a) (rest.take 48)).setNext (g₂.ptr t)
            ((db₂.fillPayload (g₂.ptr a) (rest.take 48)).efSlotToOffset a)).efSlotHeaderCrcStore t
            (g₂.ptr t)).efSlotHeaderCrcStore a (g₂.ptr a)) = db₃ at h₃ hast₃ hcore₃ hseals₃ ⊢
          have hbase₃ : db₃.mapAddr = base := by
            rw [mapAddr_eq db₃ g₂, hcore₃]
            exact hbase₂
          have hchunk₃ : db₃.efBlobOverflowChunkCap = 48 := efPayloadCapacity_eq h₃.pool.schema
          have haff₃ : (db₃.view g₂).Affords g₂ l₂ (overflowNeed (rest.drop 48).length) := by
            rw [List.length_drop]
            exact haff₂.mono hcore₃ le_rfl
          have hneed : g₂.n + overflowNeed (rest.drop 48).length ≤
              g'.n + (overflowNeed (rest.length - 48) + 1) := by
            rw [List.length_drop]
            omega
          obtain ⟨g₄, l₄, hle₄, h₄⟩ := ih h₃ ha (.inr hast₃) (rest.drop 48) (roomFor_of_le hroom hneed)
            (hseals.trans hseals₃) hbase₃ haff₃
          unfold pointer
          rw [hchunk₃, hbase₃, hptr i, hptr a]
          exact ⟨g₄, l₄, by omega, h₄⟩
      | _ =>
          obtain ⟨l₃, h₃, hseals₃⟩ := h₂.blobAbandon hseals
          have hmapped : db₂.isMapped = true := hpool₂.mapped
          have hreach : db₂.reach ⟨base, g.ptr i⟩ = some (g.ptr i) := reach_of_addr hbase₂
          rw [hptr i] at h₃ hseals₃
          simp only [hmapped, if_true, hreach]
          exact ⟨g₂, l₃, by omega, h₃, hseals₃.but i, fun _ => hseals₃, fun h0 => (by cases h0)⟩

end BlobPool

/-- Header, inline bytes and overflow of a blob. -/
lemma BlobPool.blobFill (h : BlobPool g q db i g l db₁) (hcalm : (db.view g).Calm g)
    {data : List UInt8} (hroom : roomFor (g.n + overflowNeed (data.length - 40)))
    (hseals : (db.view g).Seals g g (db₁.view g))
    (haff : (db₁.view g).Affords g l (overflowNeed (data.length - 40))) :
    ∃ g' l', g'.n ≤ g.n + data.length ∧
      BlobPool g q db i g' l' (db₁.blobFill i (g.ptr i) data).2 ∧
      (db.view g).Seals g g' ((db₁.blobFill i (g.ptr i) data).2.view g') := by
  have hidle : db₁.txnActive = false := h.pool.idle
  have hptr : db₁.efSlotPayloadPtr (g.ptr i) = g.ptr i + 8 := efSlotPayloadPtr_eq h.pool.schema _
  unfold Db.blobFill
  simp only [hptr, hidle, Bool.false_eq_true, if_false]
  generalize hdb₂ : (db₁.store (g.ptr i + 8) 4 blobMagic).store (g.ptr i + 8 + 4) 4 data.length = db₂
  have hmem₂ : ∀ x, x < g.ptr i + 8 ∨ g.ptr i + 56 ≤ x → db₂.mem x = db₁.mem x := by
    intro x hx
    rw [← hdb₂]
    exact (store_apply_of_outside (by omega)).trans (store_apply_of_outside (by omega))
  have hcap : db₂.efBlobInlineCapacity = 40 := by
    have hsb : (db₂.view g).sb = (db₁.view g).sb := by
      refine Superblock.read_congr fun x hx => hmem₂ x (.inl ?_)
      have hp := g.base_le_ptr i
      have hb := g.base_ge
      omega
    unfold efBlobInlineCapacity
    rw [efPayloadCapacity_eq (g := g) (by rw [hsb]; exact h.pool.schema)]
  simp only [hcap]
  obtain ⟨bs, hview⟩ := view_of_payload_write (g := g) db₁
    (m := writeBytes db₂.mem (g.ptr i + 8 + 8) (data.take 40)) h.head (by
      intro x hx
      have hlen := List.length_take_le 40 data
      exact (writeBytes_apply_of_outside (by omega)).trans (hmem₂ x hx))
  have hcopy : (db₂.copyIn (g.ptr i + 8 + 8) (data.take 40)).view g =
      (db₁.withMem (writeBytes db₂.mem (g.ptr i + 8 + 8) (data.take 40))).view g := by
    rw [← hdb₂]
    rfl
  obtain ⟨h₃, hs₃⟩ := h.setSlot (s := { (db₁.view g).slots i with payload := bs }) (.inl h.used) rfl
    (hcopy.trans hview)
  have hseals₃ : (db.view g).SealsBut g i g ((db₂.copyIn (g.ptr i + 8 + 8) (data.take 40)).view g) := by
    rw [hcopy.trans hview]
    exact (hseals.but i).write _
  have hcore₃ : ((db₂.copyIn (g.ptr i + 8 + 8) (data.take 40)).view g).core = (db₁.view g).core := by
    rw [hcopy.trans hview]
    rfl
  generalize db₂.copyIn (g.ptr i + 8 + 8) (data.take 40) = db₃ at h₃ hs₃ hcore₃ hseals₃ ⊢
  have hbase₃ : db₃.mapAddr = db₁.mapAddr := by
    rw [mapAddr_eq db₃ g, hcore₃]
    rfl
  have hcap₃ : db₃.efBlobInlineCapacity = 40 := by
    unfold efBlobInlineCapacity
    rw [efPayloadCapacity_eq h₃.pool.schema]
  have haff₃ : (db₃.view g).Affords g l (overflowNeed (data.drop 40).length) := by
    rw [List.length_drop]
    exact haff.mono hcore₃ le_rfl
  obtain ⟨g', l', hle, h₄, hbut, hfail, haddr⟩ := h₃.blobOverflowLoop hcalm h.head (.inl h₃.used)
    (data.drop 40) (by rw [List.length_drop]; exact hroom) hseals₃ hbase₃ haff₃
  unfold pointer
  rw [hcap₃]
  generalize Db.blobOverflowLoop i ⟨db₁.mapAddr, g.ptr i⟩ data.length ⟨db₁.mapAddr, g.ptr i⟩ i
    (data.drop 40) db₃ = r at h₄ hbut hfail haddr ⊢
  obtain ⟨e, db₄⟩ := r
  cases e with
  | ok =>
      have hreach : db₄.reach ⟨db₁.mapAddr, g.ptr i⟩ = some (g.ptr i) := reach_of_addr (haddr rfl)
      simp only [hreach] at h₄ hbut ⊢
      rw [← h₄.ptr_eq i hcalm]
      have hview₅ : ((((db₄.setStatus (g'.ptr i) statusUsed).efSlotHeaderCrcStore i
          (g'.ptr i)).setError .ok).view g') = (db₄.view g').setSlot i
            (Slot.sealed (db₄.view g').sb.slotCrc i
              { (db₄.view g').slots i with status := statusUsed }) := by
        rw [view_setError, view_efSlotHeaderCrcStore h₄.head, view_setStatus h₄.head]
        simp
      have hstat : (Slot.sealed (db₄.view g').sb.slotCrc i
          { (db₄.view g').slots i with status := statusUsed }).status =
            ((db₄.view g').slots i).status := by
        rw [Slot.sealed_status, h₄.used]
      refine ⟨g', l', hle, (h₄.setSlot (.inl h₄.used) hstat hview₅).1, ?_⟩
      rw [hview₅]
      exact hbut.seal _
  | _ => exact ⟨g', l', hle, h₄, hfail (by simp)⟩

/-- What the call leaves, as a sealed pool.
Source: `ef_blob.c`, `ef_write_blob` -/
lemma BlobPool.poolSealed {k : ℕ} (h : BlobPool g q db i g' l db₁) (hle : g'.n ≤ g.n + k)
    (hseals : (db.view g).Seals g g' (db₁.view g')) : PoolSealed g q k db db₁ :=
  ⟨g', l, h.le, hle, h.pool, h.queue, hseals⟩

/-- The old chain of a blob is released. -/
lemma BlobPool.release (h : BlobPool g q db i g l db₁) (hseals : (db.view g).Seals g g (db₁.view g)) :
    ∃ l₂, BlobPool g q db i g l₂ (db₁.efBlobReleaseChain i (g.ptr i)).2 ∧
      ((db₁.efBlobReleaseChain i (g.ptr i)).1 = .ok →
        ∃ n, db₁.oldChain i = some n ∧ l₂.length = l.length + n) ∧
      ((db₁.efBlobReleaseChain i (g.ptr i)).2.view g).core = (db₁.view g).core ∧
      (db.view g).Seals g g ((db₁.efBlobReleaseChain i (g.ptr i)).2.view g) := by
  obtain ⟨l₂, hpool₂, hlen₂, hcore₂, hused₂, hkept₂, hseals₂⟩ :=
    efBlobReleaseChain_pool h.pool h.head h.used
  refine ⟨l₂, ⟨le_rfl, hpool₂, h.head, hused₂, fun j hj => ?_⟩, hlen₂, hcore₂, hseals.trans hseals₂⟩
  have hjq := (status_of_mem_queue h.pool hj).1
  have hji : j ≠ i := by
    rintro rfl
    rw [h.used] at hjq
    simp at hjq
  rw [hkept₂ j hji (by rw [hjq]; simp)]
  exact h.queue j hj

/-- What follows the release of the old chain. -/
lemma BlobPool.refill (h : BlobPool g q db i g l db₁) (hcalm : (db.view g).Calm g)
    {data : List UInt8} (hroom : roomFor (g.n + overflowNeed (data.length - 40)))
    (hseals : (db.view g).Seals g g (db₁.view g))
    (haff : (db₁.view g).Affords g l (overflowNeed (data.length - 40))) {r : Option ℕ × Db}
        (hr : db₁.efGetSlot i = r) :
    PoolSealed g q data.length db
      (match r with
        | (none, db) => (db.lastErr, db)
        | (some head, db) => db.blobFill i head data).2 := by
  rw [← hr, efGetSlot_of_lt h.pool.toBound h.head]
  by_cases hcrc : ((db₁.view g).slots i).crcValid (db₁.view g).sb.slotCrc i = true
  · rw [if_pos hcrc]
    obtain ⟨g', l', hle, h₂, hseals₂⟩ := (h.setError .ok).blobFill hcalm hroom hseals haff
    exact h₂.poolSealed hle hseals₂
  · rw [if_neg hcrc]
    exact h.poolSealed (Nat.le_add_right _ _) hseals

/-- The slots of a database whose status is `FREE`. -/
def freeSlots (db : Db) : Finset ℕ :=
  (Finset.range db.sb.maxSlots).filter fun i => (db.slot i).status = statusFree

/-- The `FREE` slots are those of the list. -/
lemma card_freeSlots_of_pool (h : (db.view g).Pool g l q) : db.freeSlots.card = l.length := by
  have hn : db.sb.maxSlots = g.n := h.maxSlots
  have hcard : db.freeSlots = l.toFinset := by
    ext i
    unfold freeSlots
    rw [List.mem_toFinset, h.mem_iff, Finset.mem_filter, Finset.mem_range, hn]
    exact and_congr_right fun hi => by rw [slot_eq h.cap hi]
  rw [hcard, List.toFinset_card_of_nodup h.nodup]

/-- The slots that a blob write to `slotId` can take for the overflow: the free ones without the
slot itself, or, if that is in use, with the slots of its old chain, which has to end. -/
def blobSpare (db : Db) (slotId : ℕ) : Option ℕ :=
  if (db.slot slotId).status = statusFree then some (db.freeSlots.card - 1)
  else (db.oldChain slotId).map (db.freeSlots.card + ·)

/-- A blob write that comes to the allocation of more slots than there are; or the database is so
large that its free count may have wrapped. -/
def Outgrows (db : Db) (slotId : ℕ) (data : List UInt8) : Prop :=
  (db.efGetSlot slotId).1.isSome = true ∧ data.length ≤ 0xFFFFFFFF ∧
    ∃ n ∈ db.blobSpare slotId, u32 ≤ db.sb.maxSlots ∨ n < overflowNeed (data.length - 40)

/-- The system calls of a growth succeed, and map the file where it was. -/
def GrowableInPlace (db : Db) : Prop := db.backend = .file →
  db.env.growFileErr = none ∧
    ∀ size, db.fileSize ≤ size → db.env.mapAddr size = db.env.mapAddr db.fileSize

/-- A blob write whose growth, if it has one, leaves the mapping where it is. -/
lemma affords_of_spare (h : (db.view g).Pool g l q) {data : List UInt8}
    (hs : db.Outgrows i data → db.GrowableInPlace) (hi : i < g.n)
    (hcrc : ((db.view g).slots i).crcValid (db.view g).sb.slotCrc i = true)
    (hlen : data.length ≤ 0xFFFFFFFF) (hn : db.blobSpare i = some n) :
    (g.n < u32 ∧ overflowNeed (data.length - 40) ≤ n) ∨ (db.view g).core.Steady := by
  have hmax : db.sb.maxSlots = g.n := h.maxSlots
  by_cases hout : db.Outgrows i data
  · exact .inr (hs hout)
  · refine .inl ?_
    have hsome : (db.efGetSlot i).1.isSome = true := by
      rw [efGetSlot_of_lt h.toBound hi, if_pos hcrc]
      rfl
    unfold Outgrows at hout
    rw [hn, hmax] at hout
    simp only [hsome, hlen, true_and, Option.mem_def, Option.some.injEq, exists_eq_left', not_or,
      not_le, not_lt] at hout
    exact hout

/-- **The old chain is released, and the blob written anew.** -/
lemma BlobPool.replace (h : BlobPool g q db i g l db₁) (hcalm : (db.view g).Calm g)
    {data : List UInt8} (hroom : roomFor (g.n + overflowNeed (data.length - 40)))
    (hseals : (db.view g).Seals g g (db₁.view g))
    (haff : ∀ m, db₁.oldChain i = some m →
      (g.n < u32 ∧ overflowNeed (data.length - 40) ≤ l.length + m) ∨ (db₁.view g).core.Steady) :
    let r := db₁.efBlobReleaseChain i (g.ptr i)
    (r.1 ≠ .ok → PoolSealed g q data.length db r.2) ∧
      (r.1 = .ok → ∀ p, r.2.efGetSlot i = p → PoolSealed g q data.length db
        (match p with
          | (none, db) => (db.lastErr, db)
          | (some head, db) => db.blobFill i head data).2) := by
  obtain ⟨l₂, h₂, hlen₂, hcore₂, hseals₂⟩ := h.release hseals
  generalize db₁.efBlobReleaseChain i (g.ptr i) = r at h₂ hlen₂ hcore₂ hseals₂
  obtain ⟨e, db₂⟩ := r
  refine ⟨fun _ => h₂.poolSealed (Nat.le_add_right _ _) hseals₂, fun hok p hp => ?_⟩
  obtain ⟨m, hm, hlen₂⟩ := hlen₂ hok
  have haff₂ : (db₂.view g).Affords g l₂ (overflowNeed (data.length - 40)) := by
    rcases haff m hm with ⟨hn, hneed⟩ | hsteady
    · exact .inl ⟨hn, by omega⟩
    · refine .inr ?_
      rw [hcore₂]
      exact hsteady
  exact h₂.refill hcalm hroom hseals₂ haff₂ hp

/-- **`ef_write_blob`** on a slot that is free or used. -/
lemma efWriteBlob_sealed (h : (db.view g).Pool g l q) (data : List UInt8)
    (hst : i < g.n → ((db.view g).slots i).status = statusFree ∨
      ((db.view g).slots i).status = statusUsed)
    (hroom : data.length ≤ 0xFFFFFFFF → roomFor (g.n + overflowNeed (data.length - 40)))
    (hs : db.Outgrows i data → db.GrowableInPlace) : PoolSealed g q data.length db
        (db.efWriteBlob i data).2 := by
  have hcalm := h.toCalm
  have hcap : db.efPayloadCapacity = 48 := efPayloadCapacity_eq h.schema
  unfold efWriteBlob
  rw [efDbRequireWrite_eq h.writable]
  simp only
  by_cases hlen : 0xFFFFFFFF < data.length
  · rw [if_pos hlen]
    exact poolSealed_of_view h rfl _
  have hroom := hroom (by omega)
  rw [if_neg hlen, if_neg (by unfold efBlobInlineCapacity efBlobOverflowChunkCap; omega)]
  by_cases hi : i < g.n
  swap
  · rw [efGetSlot_of_ge h.toBound (by omega)]
    exact poolSealed_of_view h rfl _
  rw [efGetSlot_of_lt h.toBound hi]
  by_cases hcrc : ((db.view g).slots i).crcValid (db.view g).sb.slotCrc i = true
  swap
  · rw [if_neg hcrc]
    exact poolSealed_of_view h rfl _
  rw [if_pos hcrc]
  have haff := fun m => @affords_of_spare g db i m l q h data hs hi hcrc (not_lt.mp hlen)
  unfold blobSpare at haff
  rw [slot_eq h.cap hi, card_freeSlots_of_pool h] at haff
  have hslot : (db.setError .ok).slotAt (g.ptr i) = (db.view g).slots i := slotAt_eq db hi
  have hpool₀ : ((db.setError .ok).view g).Pool g l q := h
  simp only [hslot]
  rcases hst hi with hfree | hused
  · simp only [hfree, if_true]
    obtain ⟨hok, ⟨l₁, hpool₁, hlen₁⟩, hcore₁, hused₁, hkept₁, hseals₁⟩ :=
        efClaimSlot_pool hpool₀ hi hfree
    generalize (db.setError .ok).efClaimSlot i = r at hok hpool₁ hcore₁ hused₁ hkept₁ hseals₁
    obtain ⟨e, db₁⟩ := r
    simp only at hok hpool₁ hcore₁ hused₁ hkept₁ hseals₁
    subst hok
    have haff₁ : ∀ m, (db₁.setError .ok).oldChain i = some m →
        (g.n < u32 ∧ overflowNeed (data.length - 40) ≤ l₁.length + m) ∨
          ((db₁.setError .ok).view g).core.Steady := by
      intro m _
      rcases haff (l.length - 1) (if_pos hfree) with ⟨hn, hneed⟩ | hsteady
      · exact .inl ⟨hn, by omega⟩
      · refine .inr ?_
        rw [view_setError, hcore₁]
        exact hsteady
    have h₁ : BlobPool g q db i g l₁ db₁ := by
      refine ⟨le_rfl, hpool₁, hi, hused₁, fun j hj => ?_⟩
      obtain ⟨hjq, hjn⟩ := status_of_mem_queue h hj
      refine hkept₁ j hjn ?_
      show ((db.view g).slots j).status ≠ _
      rw [hjq]
      simp
    simp only
    rw [efGetSlot_of_lt hpool₁.toBound hi]
    by_cases hcrc₁ : ((db₁.view g).slots i).crcValid (db₁.view g).sb.slotCrc i = true
    swap
    · rw [if_neg hcrc₁]
      exact h₁.poolSealed (Nat.le_add_right _ _) hseals₁
    rw [if_pos hcrc₁]
    have hslot₁ : (db₁.setError .ok).slotAt (g.ptr i) = (db₁.view g).slots i := slotAt_eq db₁ hi
    have hidle : (db₁.setError .ok).txnActive = false := hpool₁.idle
    simp only [hslot₁, hused₁, ne_eq, not_true, if_false, hidle, Bool.false_eq_true]
    obtain ⟨hfail, hfill⟩ := (h₁.setError .ok).replace hcalm hroom hseals₁ haff₁
    generalize (db₁.setError .ok).efBlobReleaseChain i (g.ptr i) = r at hfail hfill ⊢
    obtain ⟨e, db₂⟩ := r
    cases e with
    | ok =>
        simp only
        generalize hget : db₂.efGetSlot i = p
        exact hfill rfl p hget
    | _ => exact hfail (by simp)
  · have hne : ¬ ((db.view g).slots i).status = statusFree := by rw [hused]; simp
    have hidle : (db.setError .ok).txnActive = false := h.idle
    have h₁ : BlobPool g q db i g l (db.setError .ok) := ⟨le_rfl, h, hi, hused, fun _ _ => rfl⟩
    rw [if_neg hne]
    simp only [hslot, hused, ne_eq, not_true, hidle, Bool.false_eq_true, if_false]
    have haff₁ : ∀ m, (db.setError .ok).oldChain i = some m →
        (g.n < u32 ∧ overflowNeed (data.length - 40) ≤ l.length + m) ∨
          ((db.setError .ok).view g).core.Steady := by
      intro m hm
      rw [oldChain_setError] at hm
      rw [view_setError]
      refine haff (l.length + m) ?_
      rw [if_neg hne, hm]
      rfl
    obtain ⟨hfail, hfill⟩ := h₁.replace hcalm hroom (View.Seals.refl _ _) haff₁
    generalize (db.setError .ok).efBlobReleaseChain i (g.ptr i) = r at hfail hfill ⊢
    obtain ⟨e, db₂⟩ := r
    cases e with
    | ok =>
        simp only
        generalize hget : db₂.efGetSlot i = p
        exact hfill rfl p hget
    | _ => exact hfail (by simp)

end Db

end Endfields.Model
