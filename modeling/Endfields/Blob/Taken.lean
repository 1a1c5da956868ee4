import Endfields.Pool.Write

/-!
# What the parts of a blob write do, exactly

The calls that a blob write is made of, on a pool, with the view that each of them leaves.

* `releaseChainLoop_linked`, `efBlobReleaseChain_linked`: **the release of a chain** gives back all
  of its slots, and cannot fail.
* `View.GrownTo`: a growth keeps the slots that there are and puts `FREE` ones behind them;
  `efAllocEx_taken`: an allocation is a growth, if that, and takes the head of the list, if it
  succeeds.
* `view_blobHeader`, `view_blobAbandon`: the stores to the head of a blob.
-/

namespace Endfields.Model

open Endfields.Lib

namespace View

variable {g g' : Geometry} {v w : View} {c l q : List ℕ} {i j : ℕ} {s : Slot}

/-- What was in a slot does not matter when it is given back. -/
lemma pushSlot_setSlot (v : View) (g : Geometry) (i : ℕ) (s : Slot) :
    (v.setSlot i s).pushSlot g i = v.pushSlot g i := by
  unfold View.pushSlot
  rw [View.setSlot_setSb, View.setSlot_setSlot]
  rfl

lemma Pool.off_of_overflow (h : v.Pool g l q) (hst : (v.slots j).status = statusOverflow) :
    v.OffQueue g q j := by
  refine h.queue.off_of_status ?_ ?_ <;> rw [hst] <;> simp

/-- Giving back the slots of a chain. -/
lemma Pool.pushSlots (h : v.Pool g l q) (hnd : c.Nodup) (hlt : ∀ j ∈ c, j < g.n)
    (hst : ∀ j ∈ c, (v.slots j).status = statusOverflow) :
    (v.pushSlots g c).Pool g (c.reverse ++ l) q := by
  induction c generalizing v l with
  | nil => exact h
  | cons j c ih =>
      obtain ⟨hjc, hnd⟩ := List.nodup_cons.mp hnd
      have hj : (v.slots j).status = statusOverflow := hst j List.mem_cons_self
      have hpush : (v.pushSlot g j).Pool g (j :: l) q := by
        refine h.pushSlot (hlt j List.mem_cons_self) ?_ (h.off_of_overflow hj)
        rw [hj]
        simp
      have hrest := ih hpush hnd (fun a ha => hlt a (List.mem_cons_of_mem j ha)) fun a ha => by
        have haj : a ≠ j := fun heq => hjc (heq ▸ ha)
        rw [pushSlot_slots_of_ne haj]
        exact hst a (List.mem_cons_of_mem j ha)
      rw [List.reverse_cons, List.append_assoc]
      exact hrest

/-- The slots of `v`, with `FREE` ones behind them. -/
structure GrownTo (g : Geometry) (v : View) (g' : Geometry) (w : View) : Prop where
  le : g.n ≤ g'.n
  kept : ∀ j, j < g.n → w.slots j = v.slots j
  fresh : ∀ j, g.n ≤ j → j < g'.n → (w.slots j).status = statusFree
  core : v.core.Extends w.core

lemma GrownTo.of_eq (h : w = v) : GrownTo g v g w :=
  ⟨le_rfl, fun _ _ => by rw [h], fun _ hj hj' => absurd hj' (not_lt.mpr hj), .of_eq (by rw [h])⟩

/-- A slot in use after a growth was in use before it. -/
lemma GrownTo.used (h : GrownTo g v g' w) (hj : j < g'.n) (hst : (w.slots j).status ≠ statusFree) :
    j < g.n ∧ (v.slots j).status ≠ statusFree := by
  by_cases hlt : j < g.n
  · exact ⟨hlt, by rwa [← h.kept j hlt]⟩
  · exact absurd (h.fresh j (not_lt.mp hlt) hj) hst

end View

namespace Db

variable {g : Geometry} {db db₁ : Db} {i k off fuel : ℕ} {l q c : List ℕ}

/-! ### The release of a chain -/

/-- **The release of a chain** that ends gives back its slots, one after the other. -/
lemma releaseChainLoop_linked (h : (db.view g).Pool g l q)
    (hl : Linked g.idOf (fun j => ((db.view g).slots j).nextOffset) off c 0) (hnd : c.Nodup)
    (hst : ∀ j ∈ c, ((db.view g).slots j).status = statusOverflow) (hfuel : c.length < fuel) :
    (releaseChainLoop fuel off db).1 = .ok ∧
      (releaseChainLoop fuel off db).2.view g = (db.view g).pushSlots g c := by
  induction c generalizing db l off fuel with
  | nil =>
      obtain ⟨fuel, rfl⟩ : ∃ k, fuel = k + 1 := ⟨fuel - 1, by simp at hfuel; omega⟩
      have h0 : off = 0 := hl
      rw [releaseChainLoop, if_pos h0]
      exact ⟨rfl, rfl⟩
  | cons j c ih =>
      rw [List.length_cons] at hfuel
      obtain ⟨fuel, rfl⟩ : ∃ k, fuel = k + 1 := ⟨fuel - 1, by omega⟩
      obtain ⟨hid, hrest⟩ := hl
      obtain ⟨hjc, hnd⟩ := List.nodup_cons.mp hnd
      obtain ⟨hj, hoff⟩ := (g.idOf_eq_some_iff _ _).mp hid
      have hne : ¬ off = 0 := by
        rw [hoff]
        exact g.ptr_ne_zero j
      have hov : ((db.view g).slots j).status = statusOverflow := hst j List.mem_cons_self
      have hfree : ((db.view g).slots j).status ≠ statusFree := by rw [hov]; simp
      have hoffq := h.off_of_overflow hov
      rw [releaseChainLoop, if_neg hne, (efOffsetToSlotId_eq_ok_iff h.toBound _ _).mpr ⟨hj, hoff⟩]
      simp only
      rw [slotPtr_eq h.cap, slotAt_eq db hj, if_neg (not_not.mpr hov)]
      have hcalm : ((db.setNext (g.ptr j) 0).view g).Calm g := by
        rw [view_setNext hj]
        exact h.toCalm.setSlot j _
      obtain ⟨hok, hview⟩ := efReturnSlotToPool_calm hcalm hj
      rw [view_setNext hj, View.pushSlot_setSlot] at hview
      generalize (db.setNext (g.ptr j) 0).efReturnSlotToPool j (g.ptr j) = r at hok hview
      obtain ⟨e, db₁⟩ := r
      simp only at hok hview
      subst hok
      simp only
      have hpool₁ : (db₁.view g).Pool g (j :: l) q := by
        rw [hview]
        exact h.pushSlot hj hfree hoffq
      have hsame : ∀ a ∈ c, (db₁.view g).slots a = (db.view g).slots a := by
        intro a ha
        have haj : a ≠ j := fun heq => hjc (heq ▸ ha)
        rw [hview, View.pushSlot_slots_of_ne haj]
      have hl₁ : Linked g.idOf (fun a => ((db₁.view g).slots a).nextOffset)
          ((db.view g).slots j).nextOffset c 0 :=
        hrest.mono fun o a ha ho => ⟨ho, by rw [hsame a ha]⟩
      have hst₁ : ∀ a ∈ c, ((db₁.view g).slots a).status = statusOverflow := by
        intro a ha
        rw [hsame a ha]
        exact hst a (List.mem_cons_of_mem j ha)
      have hfuel₁ : c.length < fuel := Nat.lt_of_succ_lt_succ hfuel
      obtain ⟨hok₂, hview₂⟩ := ih hpool₁ hl₁ hnd hst₁ hfuel₁
      refine ⟨hok₂, ?_⟩
      rw [hview₂, hview]
      rfl

/-- The release of the chain of a slot in use: the slot loses its link, the chain is given back. -/
lemma efBlobReleaseChain_linked (h : (db.view g).Pool g l q) (hi : i < g.n)
    (hused : ((db.view g).slots i).status = statusUsed)
    (hl : Linked g.idOf (fun j => ((db.view g).slots j).nextOffset)
      ((db.view g).slots i).nextOffset c 0)
    (hst : ∀ j ∈ c, ((db.view g).slots j).status = statusOverflow) :
    (db.efBlobReleaseChain i (g.ptr i)).1 = .ok ∧
      (db.efBlobReleaseChain i (g.ptr i)).2.view g = ((db.view g).setSlot i
        (Slot.sealed (db.view g).sb.slotCrc i
          { (db.view g).slots i with nextOffset := 0 })).pushSlots g c := by
  have hnd : c.Nodup := hl.nodup g.idOf_zero
  have hic : ∀ j ∈ c, j ≠ i := by
    intro j hj heq
    have hov := hst j hj
    rw [heq, hused] at hov
    simp at hov
  have hlt : ∀ j ∈ c, j < g.n := by
    intro j hj
    obtain ⟨o, ho⟩ := hl.exists_of_mem hj
    exact ((g.idOf_eq_some_iff _ _).mp ho).1
  have hview₁ : ((db.setNext (g.ptr i) 0).efSlotHeaderCrcStore i (g.ptr i)).view g =
      (db.view g).setSlot i
        (Slot.sealed (db.view g).sb.slotCrc i { (db.view g).slots i with nextOffset := 0 }) := by
    rw [view_efSlotHeaderCrcStore hi, view_setNext hi]
    simp
  unfold efBlobReleaseChain
  simp only
  generalize (db.setNext (g.ptr i) 0).efSlotHeaderCrcStore i (g.ptr i) = db₁ at hview₁ ⊢
  have hpool₁ : (db₁.view g).Pool g l q := by
    rw [hview₁]
    refine h.setSlot (by rw [hused]; simp) ?_ (off_of_status h (.inl hused))
    rw [Slot.sealed_status]
    show ((db.view g).slots i).status ≠ statusFree
    rw [hused]
    simp
  have hsame : ∀ j ∈ c, (db₁.view g).slots j = (db.view g).slots j := by
    intro j hj
    rw [hview₁, View.setSlot_slots, Function.update_of_ne (hic j hj)]
  have hlen : c.length < 17 * (db₁.sb.maxSlots + 1) := by
    have hmax : db₁.sb.maxSlots = g.n := hpool₁.maxSlots
    have hsub := hnd.subperm fun j hj => List.mem_range.mpr (hlt j hj)
    have hle : c.length ≤ g.n := by simpa using hsub.length_le
    omega
  rw [slotAt_eq db hi, ← hview₁]
  refine releaseChainLoop_linked hpool₁ (hl.mono fun o a ha ho => ⟨ho, ?_⟩) hnd (fun j hj => ?_) hlen
  · rw [hsame a ha]
  · rw [hsame j hj]
    exact hst j hj

/-! ### Allocation -/

/-- The slot that an allocation hands out, before its checksum is stored.
Source: `endfields.c`, `ef_free_list_pop_atomic` -/
def blankSlot : Slot :=
  { status := statusUsed, headerCrc := 0, payload := List.replicate 48 0, nextOffset := 0 }

/-- No slot below `n` has the checksum `0` when it is handed out. -/
def BlankNonzero (n : ℕ) : Prop := ∀ j, j < n → efSlotHeaderCrcCompute j blankSlot ≠ 0

instance (n : ℕ) : Decidable (BlankNonzero n) := inferInstanceAs (Decidable (∀ _, _ → _))

/-- Nor has one of fewer slots. -/
lemma BlankNonzero.mono {m n : ℕ} (h : BlankNonzero n) (hm : m ≤ n) : BlankNonzero m :=
  fun j hj => h j (lt_of_lt_of_le hj hm)

/-- Such a slot passes its check. -/
lemma BlankNonzero.crcValid {n : ℕ} (h : BlankNonzero n) (hi : i < n) (v : View) :
    (v.allocated true i).crcValid v.sb.slotCrc i = true := by
  refine Slot.crcValid_sealed fun _ _ => ?_
  exact h i hi

/-- **An allocation** is a growth of at most one slot, and takes the head of the list if it
succeeds; no slot is checked. -/
lemma efAllocEx_taken (h : (db.view g).Pool g l q) (hroom : roomFor (g.n + 1))
    (hgrow : (db.view g).core.Unfailing) (clear : Bool) :
    let r := db.efAllocEx clear
    ∃ g' l', g'.n ≤ g.n + 1 ∧
      ((r.1 ≠ .ok ∧ r.1 ≠ .badChecksum ∧ (r.2.2.view g').Pool g' l' q ∧
          View.GrownTo g (db.view g) g' (r.2.2.view g')) ∨
        (r.1 = .ok ∧ ∃ w : View, w.Pool g' (r.2.1 :: l') q ∧ View.GrownTo g (db.view g) g' w ∧
          r.2.2.view g' = w.popSlot clear r.2.1)) := by
  -- an attempt on a pool that has come out of a growth
  have hattempt : ∀ (db₁ : Db) (g' : Geometry) (l' : List ℕ), g'.n ≤ g.n + 1 →
      (db₁.view g').Pool g' l' q → View.GrownTo g (db.view g) g' (db₁.view g') →
      let r := db₁.efAllocSlotEx clear
      ∃ g' l', g'.n ≤ g.n + 1 ∧
        ((r.1 ≠ .ok ∧ r.1 ≠ .badChecksum ∧ (r.2.2.view g').Pool g' l' q ∧
            View.GrownTo g (db.view g) g' (r.2.2.view g')) ∨
          (r.1 = .ok ∧ ∃ w : View, w.Pool g' (r.2.1 :: l') q ∧ View.GrownTo g (db.view g) g' w ∧
            r.2.2.view g' = w.popSlot clear r.2.1)) := by
    intro db₁ g' l' hle hpool hgrown
    rcases efAllocSlotEx_pool hpool clear with ⟨herr, hview⟩ | ⟨l₂, hl, hok, hview⟩
    · refine ⟨g', l', hle, .inl ⟨herr, ?_, ?_, ?_⟩⟩
      · rw [(efAllocSlotEx_full hpool clear herr).2]
        decide
      · rw [hview]
        exact hpool
      · rw [hview]
        exact hgrown
    · exact ⟨g', l₂, hle, .inr ⟨hok, db₁.view g', hl ▸ hpool, hgrown, hview⟩⟩
  unfold efAllocEx
  have hfirst := hattempt db g l (Nat.le_succ _) h (View.GrownTo.of_eq rfl)
  rcases efAllocSlotEx_pool h clear with ⟨herr, hview⟩ | ⟨l', hl, hok, -⟩
  swap
  · generalize db.efAllocSlotEx clear = r at hfirst hok
    obtain ⟨e, i, db₁⟩ := r
    simp only at hok
    subst hok
    exact hfirst
  generalize db.efAllocSlotEx clear = r at hfirst herr hview
  obtain ⟨e, i, db₁⟩ := r
  simp only at herr hview
  by_cases hfull : e = .slotFull
  swap
  · cases e <;> first | exact absurd rfl hfull | exact hfirst
  subst hfull
  have hpool₁ : (db₁.view g).Pool g l q := by rwa [hview]
  have hmax₁ : (db₁.sb.maxSlots + 1) % u64 = (plain hroom).n := by
    have hm : db₁.sb.maxSlots = g.n := hpool₁.maxSlots
    rw [hm]
    refine Nat.mod_eq_of_lt ?_
    unfold roomFor at hroom
    omega
  have hgrow₁ : (db₁.view g).core.Unfailing := by rwa [hview]
  have hbad := efGrow_ne_badChecksum hpool₁.toBound hgrow₁ (plain hroom).n
  simp only
  rw [hmax₁]
  rcases efGrow_grown hpool₁ (plain hroom) rfl (fun _ => hgrow₁) with
    ⟨hgerr, hgview⟩ | ⟨hgok, hlt, ⟨l', hpool⟩, hkept, hfresh, -, hext⟩
  · generalize db₁.efGrow (plain hroom).n = r at hgerr hgview hbad
    obtain ⟨e, db₂⟩ := r
    simp only at hgerr hgview hbad
    have hfail : (db₂.view g).Pool g l q ∧ View.GrownTo g (db.view g) g (db₂.view g) := by
      rw [hgview]
      exact ⟨hpool₁, View.GrownTo.of_eq hview⟩
    cases e <;> first
      | exact absurd rfl hgerr
      | exact ⟨g, l, Nat.le_succ _, .inl ⟨hgerr, hbad, hfail⟩⟩
  · rw [hview] at hext
    generalize db₁.efGrow (plain hroom).n = r at hgok hpool hkept hfresh hext
    obtain ⟨e, db₂⟩ := r
    simp only at hgok hpool hkept hfresh hext
    subst hgok
    refine hattempt db₂ (plain hroom) l' le_rfl hpool ⟨hlt.le, fun j hj => ?_, hfresh, hext⟩
    rw [hkept j hj, hview]

/-- An overflow slot: the slot taken is blank but for its status. It is checked, and refused if its
checksum is `0`. -/
lemma efAllocOverflowSlot_taken (h : (db.view g).Pool g l q) (hroom : roomFor (g.n + 1))
    (hgrow : (db.view g).core.Unfailing)
    (hcrc : BlankNonzero (g.n + 1) ∨ db.efAllocOverflowSlot.1 ≠ .badChecksum) :
    let r := db.efAllocOverflowSlot
    r.1 ≠ .badChecksum ∧ ∃ g' l', g'.n ≤ g.n + 1 ∧ (r.2.2.2.view g').Pool g' l' q ∧
      ((r.1 ≠ .ok ∧ View.GrownTo g (db.view g) g' (r.2.2.2.view g')) ∨
        (r.1 = .ok ∧ r.2.2.1 = g'.ptr r.2.1 ∧ ∃ (w : View) (s : Slot), w.Pool g' (r.2.1 :: l') q ∧
          View.GrownTo g (db.view g) g' w ∧ s.status = statusOverflow ∧ s.nextOffset = 0 ∧
          r.2.2.2.view g' = (w.popSlot true r.2.1).setSlot r.2.1 s)) := by
  obtain ⟨g', l', hle, halloc⟩ := efAllocEx_taken h hroom hgrow true
  unfold efAllocOverflowSlot efAlloc at hcrc ⊢
  generalize db.efAllocEx true = r at halloc hcrc ⊢
  obtain ⟨e, a, db₁⟩ := r
  simp only at halloc
  rcases halloc with ⟨herr, hbad, hpool, hgrown⟩ | ⟨hok, w, hpool, hgrown, hview⟩
  · cases e <;> first
      | exact absurd rfl herr
      | exact ⟨hbad, g', l', hle, hpool, .inl ⟨herr, hgrown⟩⟩
  subst hok
  have ha : a < g'.n := hpool.lt List.mem_cons_self
  have hpool₁ : (db₁.view g').Pool g' l' q := by
    rw [hview]
    exact hpool.popSlot
  have hslot : (db₁.view g').slots a = w.allocated true a := by
    rw [hview]
    unfold View.popSlot
    rw [View.setSlot_slots, Function.update_self]
  have hused : ((db₁.view g').slots a).status = statusUsed := by
    rw [hslot]
    exact Slot.sealed_status _ _ _
  simp only at hcrc ⊢
  rw [efGetSlot_of_lt hpool₁.toBound ha] at hcrc ⊢
  have hv : ((db₁.view g').slots a).crcValid (db₁.view g').sb.slotCrc a = true := by
    rcases hcrc with hblank | hcode
    · rw [hslot, show (db₁.view g').sb.slotCrc = w.sb.slotCrc by rw [hview]; rfl]
      exact hblank.crcValid (lt_of_lt_of_le ha hle) w
    · by_contra hv
      rw [if_neg hv] at hcode
      exact hcode rfl
  rw [if_pos hv]
  have hmark : (((db₁.setError .ok).setStatus (g'.ptr a) statusOverflow).efSlotHeaderCrcStore a
      (g'.ptr a)).view g' = (db₁.view g').setSlot a (Slot.sealed (db₁.view g').sb.slotCrc a
        { (db₁.view g').slots a with status := statusOverflow }) := by
    rw [view_efSlotHeaderCrcStore ha, view_setStatus ha]
    simp
  refine ⟨fun h0 => (by cases h0), g', l', hle, ?_,
    .inr ⟨rfl, rfl, w, _, hpool, hgrown, ?_, ?_, hview ▸ hmark⟩⟩
  · show Db.view g' (efSlotHeaderCrcStore _ a (g'.ptr a)) |>.Pool g' l' q
    rw [hmark]
    refine hpool₁.setSlot (by rw [hused]; simp) ?_ (off_of_status hpool₁ (.inl hused))
    rw [Slot.sealed_status]
    simp
  · exact Slot.sealed_status _ _ _
  · rw [Slot.sealed_nextOffset, ← hview]
    show ((db₁.view g').slots a).nextOffset = 0
    rw [hslot]
    exact Slot.sealed_nextOffset _ _ _

/-! ### The head of a blob -/

/-- A word is stored byte by byte. -/
lemma store_eq_copyIn (db : Db) (a w x : ℕ) : db.store a w x = db.copyIn a (leBytes w x) := by
  have hmem : Lib.store db.mem a w x = writeBytes db.mem a (leBytes w x) := by
    funext y
    unfold Lib.store writeBytes
    rw [length_leBytes]
    split_ifs with hy
    · rw [List.getD_eq_getElem _ _ (by rw [length_leBytes]; omega), getElem_leBytes]
    · rfl
  unfold store copyIn
  rw [hmem]

/-- Two words and bytes behind them, written into a run of bytes. -/
lemma overwrite_words {X Y bs old : List UInt8} (hX : X.length = 4) (hY : Y.length = 4) :
    let a := old.take 0 ++ X ++ old.drop (0 + X.length)
    let b := a.take 4 ++ Y ++ a.drop (4 + Y.length)
    b.take 8 ++ bs ++ b.drop (8 + bs.length) = X ++ Y ++ (bs ++ old.drop (8 + bs.length)) := by
  have hXY : (X ++ Y).length = 8 := by rw [List.length_append, hX, hY]
  have ha : old.take 0 ++ X ++ old.drop (0 + X.length) = X ++ old.drop 4 := by
    rw [List.take_zero, List.nil_append, Nat.zero_add, hX]
  have hb : (X ++ old.drop 4).take 4 ++ Y ++ (X ++ old.drop 4).drop (4 + Y.length) =
      (X ++ Y) ++ old.drop 8 := by
    rw [List.take_left' hX, hY, ← hX, List.drop_length_add_append, List.drop_drop]
    congr 2
    omega
  simp only [ha, hb]
  rw [List.take_left' hXY, ← hXY, List.drop_length_add_append, List.drop_drop, List.append_assoc]

/-- The header and the inline bytes of a blob. -/
lemma view_blobHeader (db : Db) (hi : i < g.n) (x y : ℕ) {bs : List UInt8} (hbs : bs.length ≤ 40) :
    (((db.store (g.ptr i + 8) 4 x).store (g.ptr i + 8 + 4) 4 y).copyIn (g.ptr i + 8 + 8) bs).view g =
      (db.view g).setSlot i { (db.view g).slots i with
        payload := leBytes 4 x ++ leBytes 4 y ++
          (bs ++ ((db.view g).slots i).payload.drop (8 + bs.length)) } := by
  rw [store_eq_copyIn, store_eq_copyIn]
  have h₁ := view_copyIn_payload db hi 0 (leBytes 4 x) (by simp)
  rw [Nat.add_zero] at h₁
  rw [view_copyIn_payload _ hi 8 bs (by omega), view_copyIn_payload _ hi 4 (leBytes 4 y) (by simp), h₁]
  simp only [View.setSlot_setSlot, View.setSlot_slots, Function.update_self]
  rw [overwrite_words (length_leBytes 4 x) (length_leBytes 4 y)]

/-- The clean-up of a blob write, after the release of the chain, blanks the head. -/
lemma view_blobAbandon_blank (hi : i < g.n) (hr : (db.efBlobReleaseChain i (g.ptr i)).2 = db₁)
    (hschema : (db₁.view g).sb.schemaVersion = schemaVersion) :
    ∃ bs, bs.take 4 = List.replicate 4 0 ∧
      (db.blobAbandon i (g.ptr i)).view g = (db₁.view g).setSlot i
        (Slot.sealed (db₁.view g).sb.slotCrc i { (db₁.view g).slots i with payload := bs }) := by
  have hptr : db₁.efSlotPayloadPtr (g.ptr i) = g.ptr i + 8 := efSlotPayloadPtr_eq hschema _
  have hzero : ∀ db₂ : Db, db₂.zero (g.ptr i + 8 + 8) 40 =
      db₂.copyIn (g.ptr i + 8 + 8) (List.replicate 40 0) := by
    intro db₂
    unfold zero copyIn
    rw [memset_eq_writeBytes]
  have hblank : (List.replicate 40 (0 : UInt8)).length ≤ 40 := by simp
  have hview := view_blobHeader db₁ hi 0 0 hblank
  have hsb : (((db₁.store (g.ptr i + 8) 4 0).store (g.ptr i + 8 + 4) 4 0).view g).sb =
      (db₁.view g).sb := by
    have hp := g.base_le_ptr i
    have hb := g.base_ge
    refine Superblock.read_congr fun x hx => (store_apply_of_outside (.inl (by omega))).trans ?_
    exact store_apply_of_outside (.inl (by omega))
  have hcap : ((db₁.store (g.ptr i + 8) 4 0).store (g.ptr i + 8 + 4) 4 0).efBlobInlineCapacity =
      40 := by
    unfold efBlobInlineCapacity
    rw [efPayloadCapacity_eq (g := g) (by rw [hsb]; exact hschema)]
  refine ⟨leBytes 4 0 ++ leBytes 4 0 ++ (List.replicate 40 0 ++
    ((db₁.view g).slots i).payload.drop (8 + (List.replicate 40 (0 : UInt8)).length)), ?_, ?_⟩
  swap
  · unfold blobAbandon
    rw [hr]
    simp only [hptr, hcap, hzero]
    rw [view_efSlotHeaderCrcStore hi, hview]
    simp only [View.setSlot_setSlot, View.setSlot_slots, Function.update_self]
    rfl
  · have hle : leBytes 4 0 = List.replicate 4 0 := by decide
    rw [hle, List.append_assoc, List.take_append_of_le_length (by simp)]
    simp

end Db

end Endfields.Model
