import Endfields.Blob.Chains

/-!
# Blob writes on chains that share a pool

What the calls on a blob do to the chains of a pool, and to the contents of the heads.

* `View.Content v i c x`: the head `i` with the overflow slots `c` holds the blob `x`, or none.
* **The overflow loop** (`blobOverflowLoop_chains`): every round hangs one slot more on the chain;
  when no slot is to be had, the chain is given back and the head is left without a blob.
* **The calls**: `efWriteBlob_chains`, `efFreeSlot_chains`. Neither touches another head or its
  chain.
-/

namespace Endfields.Model

open Endfields.Lib

/-- A chunk of a slot, filled up with zeros, and what comes behind it. -/
lemma take_padded_append {rest x : List UInt8} (h : x.take (rest.drop 48).length = rest.drop 48) :
    (Db.padded (rest.take 48) ++ x).take rest.length = rest := by
  rcases le_total rest.length 48 with hle | hle
  · rw [List.take_of_length_le hle]
    unfold Db.padded
    rw [List.append_assoc, List.take_left' rfl]
  · have hlen : (rest.take 48).length = 48 := by
      rw [List.length_take]
      omega
    have hpad : Db.padded (rest.take 48) = rest.take 48 := by
      unfold Db.padded
      rw [hlen]
      exact List.append_nil _
    rw [hpad, List.take_append, hlen, List.take_of_length_le (by omega)]
    rw [List.length_drop] at h
    rw [h]
    exact List.take_append_drop 48 rest

namespace View

/-- The bytes behind the header of a head and those of its chain. -/
def blobBytes (v : View) (i : ℕ) (c : List ℕ) : List UInt8 :=
  (v.slots i).payload.drop 8 ++ c.flatMap fun j => (v.slots j).payload

/-- The head `i` with the overflow slots `c` holds a blob, or none. -/
def Content (v : View) (i : ℕ) (c : List ℕ) : Option (List UInt8) → Prop
  | none => c = [] ∧ (v.slots i).payload.take 4 = List.replicate 4 0
  | some b => b.length ≤ 0xFFFFFFFF ∧
      (v.slots i).payload.take 8 = leBytes 4 blobMagic ++ leBytes 4 b.length ∧
      c.length = overflowNeed (b.length - 40) ∧ (v.blobBytes i c).take b.length = b

variable {g g' : Geometry} {u v w : View} {i a : ℕ} {c c' l : List ℕ} {live : ℕ → Prop}
  {ch : ℕ → List ℕ} {x : Option (List UInt8)} {s : Slot}

/-- What a head holds is in its own payload and in those of its chain. -/
lemma Content.congr (h : v.Content i c x) (hi : (w.slots i).payload = (v.slots i).payload)
    (hc : ∀ j ∈ c, (w.slots j).payload = (v.slots j).payload) : w.Content i c x := by
  cases x with
  | none => exact ⟨h.1, by rw [hi]; exact h.2⟩
  | some b =>
      refine ⟨h.1, by rw [hi]; exact h.2.1, h.2.2.1, ?_⟩
      have hbytes : w.blobBytes i c = v.blobBytes i c := by
        unfold blobBytes
        rw [hi]
        congr 1
        exact List.flatMap_congr fun j hj => by rw [hc j hj]
      rw [hbytes]
      exact h.2.2.2

lemma KeepsOthers.refl (g : Geometry) (v : View) (i : ℕ) (c : List ℕ) : v.KeepsOthers g v i c :=
  fun _ _ _ _ _ => rfl

/-- One step after the other; the second may touch slots that were free before the first. -/
lemma KeepsOthers.trans (h : u.KeepsOthers g v i c) (h' : v.KeepsOthers g' w i c')
    (hle : g.n ≤ g'.n) (hc : ∀ j ∈ c', j < g.n → (u.slots j).status ≠ statusFree → j ∈ c) :
    u.KeepsOthers g w i c := by
  intro j hj hst hji hjc
  have huv := h j hj hst hji hjc
  rw [← huv]
  refine h' j (lt_of_lt_of_le hj hle) ?_ hji fun hm => hjc (hc j hm hj hst)
  rw [huv]
  exact hst

lemma GrownTo.keepsOthers (h : GrownTo g v g' w) (i : ℕ) (c : List ℕ) : v.KeepsOthers g w i c :=
  fun j hj _ _ _ => h.kept j hj

lemma setSlot_keepsOthers (v : View) (g : Geometry) (i : ℕ) (c : List ℕ) (s : Slot) :
    v.KeepsOthers g (v.setSlot i s) i c := by
  intro j _ _ hji _
  rw [setSlot_slots, Function.update_of_ne hji]

/-- Writes to two different slots, in either order. -/
lemma setSlot_comm {j : ℕ} (hij : i ≠ j) (s t : Slot) :
    (v.setSlot i s).setSlot j t = (v.setSlot j t).setSlot i s := by
  unfold View.setSlot
  rw [View.mk.injEq]
  exact ⟨rfl, rfl, Function.update_comm hij s t v.slots, rfl⟩

end View

namespace Db

variable {g : Geometry} {db : Db} {i t a fuel : ℕ} {l pre : List ℕ} {live : ℕ → Prop}
  {ch : ℕ → List ℕ} {rest data : List UInt8}

/-- The address of a slot does not depend on the number of slots. -/
lemma ptr_of_calm {g' : Geometry} {v w : View} (h : v.Calm g) (h' : w.Calm g') (j : ℕ) :
    g'.ptr j = g.ptr j :=
  View.ptr_of_cap_eq (h'.noIndex.trans h.noIndex.symm) j

/-! ### The overflow loop -/

/-- The clean-up after a failed allocation. -/
lemma blobAbandon_chains (h : (db.view g).Chains g l live ch) (hi : live i) :
    ∃ l', ((db.blobAbandon i (g.ptr i)).view g).Chains g l' live (Function.update ch i []) ∧
      (db.view g).KeepsOthers g ((db.blobAbandon i (g.ptr i)).view g) i (ch i) ∧
      ((db.blobAbandon i (g.ptr i)).view g).core = (db.view g).core ∧
      ((db.blobAbandon i (g.ptr i)).view g).Content i [] none := by
  obtain ⟨hlt, hused⟩ := h.head i hi
  obtain ⟨-, hrel⟩ := efBlobReleaseChain_linked h.toPool hlt hused (h.chain i hi)
    fun j hj => (h.overflow i j hj).2
  obtain ⟨l', hchains, hkeep, hself⟩ := h.release (s := Slot.sealed (db.view g).sb.slotCrc i
    { (db.view g).slots i with nextOffset := 0 }) hi (by rw [Slot.sealed_status]; exact hused)
    (Slot.sealed_nextOffset _ _ _)
  have hcore : ((db.efBlobReleaseChain i (g.ptr i)).2.view g).core = (db.view g).core := by
    rw [hrel, View.pushSlots_core]
    rfl
  rw [← hrel] at hchains hkeep hself
  generalize hr : (db.efBlobReleaseChain i (g.ptr i)).2 = db₁ at hchains hkeep hself hcore
  obtain ⟨bs, hbs, hview⟩ := view_blobAbandon_blank hlt hr hchains.schema
  have hchains' := hchains.setSlot (j := i) (s := Slot.sealed (db₁.view g).sb.slotCrc i
    { (db₁.view g).slots i with payload := bs }) (.inl hi) (Slot.sealed_status _ _ _)
    (Slot.sealed_nextOffset _ _ _)
  rw [hview]
  refine ⟨l', hchains', hkeep.trans (View.setSlot_keepsOthers _ _ _ (ch i) _) le_rfl
    (fun j hj _ _ => hj), hcore, rfl, ?_⟩
  rw [View.setSlot_slots, Function.update_self, Slot.sealed_payload]
  exact hbs

/-- The stores of a round: the new slot is filled, the last one linked to it. -/
lemma view_chainSlot (hs : (db.view g).sb.schemaVersion = schemaVersion) (ha : a < g.n) (ht : t < g.n)
    (hta : t ≠ a) (hlen : data.length ≤ 48) {off : ℕ} (hoff : off < u64) :
    ((((db.fillPayload (g.ptr a) data).setNext (g.ptr t) off).efSlotHeaderCrcStore t
      (g.ptr t)).efSlotHeaderCrcStore a (g.ptr a)).view g = ((db.view g).setSlot t
        (Slot.sealed (db.view g).sb.slotCrc t { (db.view g).slots t with nextOffset := off })).setSlot a
        (Slot.sealed (db.view g).sb.slotCrc a { (db.view g).slots a with payload := padded data }) := by
  rw [view_efSlotHeaderCrcStore ha, view_efSlotHeaderCrcStore ht, view_setNext ht,
    view_fillPayload hs ha hlen, Nat.mod_eq_of_lt hoff]
  simp only [View.setSlot_setSlot, View.setSlot_slots, Function.update_self,
    Function.update_of_ne hta, Function.update_of_ne hta.symm]
  rw [View.setSlot_comm hta.symm, View.setSlot_setSlot]
  rfl

/-- **A round**: the slot taken becomes the last one of the chain. -/
lemma round_chains {w : View} {s : Slot} {db₁ : Db} (h : w.Chains g (a :: l) live ch) (hi : live i)
    (ht : i :: ch i = pre ++ [t]) (hs : s.status = statusOverflow) (hn : s.nextOffset = 0)
    (hview : db.view g = (w.popSlot true a).setSlot a s) (hpool : (db.view g).Pool g l [])
    (hlen : data.length ≤ 48)
    (hdb₁ : (((db.fillPayload (g.ptr a) data).setNext (g.ptr t) (g.ptr a)).efSlotHeaderCrcStore t
      (g.ptr t)).efSlotHeaderCrcStore a (g.ptr a) = db₁) :
    (db₁.view g).Chains g l live (Function.update ch i (ch i ++ [a])) ∧ (db₁.view g).core = w.core ∧
      (∀ j, j ≠ a → j ≠ t → (db₁.view g).slots j = w.slots j) ∧
      (∀ j, j ≠ a → ((db₁.view g).slots j).payload = (w.slots j).payload) ∧
      ((db₁.view g).slots a).payload = padded data := by
  have ha : a < g.n := h.lt List.mem_cons_self
  have hfree := h.free (i := a) List.mem_cons_self
  obtain ⟨hna, hca⟩ := h.not_owned_of_free hfree
  have htmem : t ∈ i :: ch i := by
    rw [ht]
    exact List.mem_append_right pre (List.mem_singleton_self t)
  have htown : live t ∨ ∃ i, t ∈ ch i := by
    rcases List.mem_cons.mp htmem with rfl | hm
    · exact .inl hi
    · exact .inr ⟨i, hm⟩
  obtain ⟨htlt, htst⟩ := h.used_of_owned htown
  have hta : t ≠ a := by
    rintro rfl
    exact h.ne_free_of_owned htown hfree
  have hw : ∀ j, j ≠ a → (db.view g).slots j = w.slots j := by
    intro j hj
    rw [hview, View.setSlot_slots, Function.update_of_ne hj]
    unfold View.popSlot
    rw [View.setSlot_slots, Function.update_of_ne hj]
    rfl
  have hsa : (db.view g).slots a = s := by
    rw [hview, View.setSlot_slots, Function.update_self]
  have hview₁ := view_chainSlot hpool.schema ha htlt hta hlen (g.ptr_lt_u64 ha)
  rw [hdb₁, hsa, hw t hta] at hview₁
  have hslot_a : (db₁.view g).slots a =
      Slot.sealed (db.view g).sb.slotCrc a { s with payload := padded data } := by
    rw [hview₁, View.setSlot_slots, Function.update_self]
  have hslot_t : (db₁.view g).slots t =
      Slot.sealed (db.view g).sb.slotCrc t { w.slots t with nextOffset := g.ptr a } := by
    rw [hview₁, View.setSlot_slots, Function.update_of_ne hta, View.setSlot_slots, Function.update_self]
  have hother : ∀ j, j ≠ a → j ≠ t → (db₁.view g).slots j = w.slots j := by
    intro j hja hjt
    rw [hview₁, View.setSlot_slots, Function.update_of_ne hja, View.setSlot_slots,
      Function.update_of_ne hjt, hw j hja]
  have hpool₁ : (db₁.view g).Pool g l [] := by
    have hoff : ∀ (u : View) j, u.Pool g l [] → (u.slots j).status = statusUsed ∨
        (u.slots j).status = statusOverflow → u.OffQueue g [] j := by
      intro u j hu hst
      refine hu.queue.off_of_status ?_ ?_ <;> rcases hst with hst | hst <;> rw [hst] <;> simp
    have hne : (w.slots t).status ≠ statusFree := h.ne_free_of_owned htown
    have hone : ((db.view g).setSlot t (Slot.sealed (db.view g).sb.slotCrc t
        { w.slots t with nextOffset := g.ptr a })).Pool g l [] := by
      refine hpool.setSlot ?_ ?_ (hoff _ t hpool ?_)
      · rw [hw t hta]
        exact hne
      · rw [Slot.sealed_status]
        exact hne
      · rw [hw t hta]
        exact htst
    have hst_a : (((db.view g).setSlot t (Slot.sealed (db.view g).sb.slotCrc t
        { w.slots t with nextOffset := g.ptr a })).slots a).status = statusOverflow := by
      rw [View.setSlot_slots, Function.update_of_ne hta.symm, hsa, hs]
    rw [hview₁]
    refine hone.setSlot ?_ ?_ (hoff _ a hone (.inr hst_a))
    · rw [hst_a]
      simp
    · rw [Slot.sealed_status]
      show s.status ≠ statusFree
      rw [hs]
      simp
  refine ⟨h.extend hpool₁ hi ht ha hfree hother ?_ ?_ ?_ ?_, by rw [hview₁, hview]; rfl, hother,
    fun j hja => ?_, ?_⟩
  · rw [hslot_t, Slot.sealed_status]
  · rw [hslot_t, Slot.sealed_nextOffset]
  · rw [hslot_a, Slot.sealed_status, ← hs]
  · rw [hslot_a, Slot.sealed_nextOffset, ← hn]
  · by_cases hjt : j = t
    · rw [hjt, hslot_t, Slot.sealed_payload]
    · rw [hother j hja hjt]
  · rw [hslot_a, Slot.sealed_payload]

/-- What the overflow loop has made of the chain `c` behind the head `i`: the bytes are in slots
that were hung on it, or there is no chain and no blob. -/
inductive Spilled (v : View) (i : ℕ) (c : List ℕ) (rest : List UInt8) (w : View) : Err → List ℕ → Prop
  | ok (e : List ℕ) (hlen : e.length = overflowNeed rest.length)
      (hbytes : (e.flatMap fun j => (w.slots j).payload).take rest.length = rest)
      (hkept : ∀ j ∈ i :: c, (w.slots j).payload = (v.slots j).payload) : Spilled v i c rest w .ok
          (c ++ e)
  | failed (err : Err) (herr : err ≠ .ok) (hblank : w.Content i [] none) : Spilled v i c rest w err []

/-- With no bytes left, nothing is hung on the chain. -/
lemma Spilled.nil (v : View) (i : ℕ) (c : List ℕ) : Spilled v i c [] v .ok c := by
  have hspill : Spilled v i c [] v .ok (c ++ []) := .ok [] rfl rfl fun _ _ => rfl
  rwa [List.append_nil] at hspill

/-- A round of the overflow loop, on a pool that owns the chain `c` of the head `i`: slot `a`, which
was not in use, has the first bytes of `rest`. -/
structure Hung (g : Geometry) (v : View) (i : ℕ) (c : List ℕ) (rest : List UInt8) (a : ℕ) (w : View) :
    Prop where
  new : ∀ j, j < g.n → (v.slots j).status ≠ statusFree → j ≠ a
  owned : ∀ j ∈ i :: c, j < g.n ∧ (v.slots j).status ≠ statusFree
  keeps : v.KeepsOthers g w i c
  payload : ∀ j, j < g.n → j ≠ a → (w.slots j).payload = (v.slots j).payload
  filled : (w.slots a).payload = padded (rest.take 48)
  core : v.core.Extends w.core

/-- What the rounds behind a round keep, with it. -/
lemma Hung.keepsOthers {g' : Geometry} {v w u : View} {c : List ℕ} (h : Hung g v i c rest a w)
    (hle : g.n ≤ g'.n) (hk : w.KeepsOthers g' u i (c ++ [a])) : v.KeepsOthers g u i c := by
  refine h.keeps.trans hk hle fun j hj hlt hst => ?_
  exact (List.mem_append.mp hj).resolve_right fun hm => h.new j hlt hst (List.mem_singleton.mp hm)

/-- **A round, and the rounds behind it**: the slot of the round comes first. -/
lemma Hung.spilled {v w u : View} {c c' : List ℕ} {e : Err} (h : Hung g v i c rest a w)
    (hrest : rest ≠ [])
    (hs : Spilled w i (c ++ [a]) (rest.drop 48) u e c') : Spilled v i c rest u e c' := by
  cases hs with
  | ok e hlen hbytes hkept =>
      rw [List.append_assoc]
      refine .ok ([a] ++ e) ?_ ?_ fun j hj => ?_
      · have hpos : 0 < rest.length := List.length_pos_iff.mpr hrest
        rw [overflowNeed_step hpos, List.length_append, hlen, List.length_drop]
        exact Nat.add_comm _ _
      · rw [List.singleton_append, List.flatMap_cons]
        have hpa : (u.slots a).payload = padded (rest.take 48) := by
          rw [hkept a (List.mem_cons_of_mem i (List.mem_append_right _ (List.mem_singleton_self a)))]
          exact h.filled
        rw [hpa]
        exact take_padded_append hbytes
      · obtain ⟨hlt, hst⟩ := h.owned j hj
        have hmem : j ∈ i :: (c ++ [a]) := by
          rw [← List.cons_append]
          exact List.mem_append_left [a] hj
        rw [hkept j hmem, h.payload j hlt (h.new j hlt hst)]
  | failed _ herr hblank => exact .failed _ herr hblank

/-- **A round** that is given a slot hangs it on the chain. -/
lemma round_hung {g' : Geometry} {w : View} {s : Slot} {l' : List ℕ} {db₁ db₂ : Db}
    (h : (db.view g).Chains g l live ch) (hi : live i) (ht : i :: ch i = pre ++ [t])
    (hpool₁ : (db₁.view g').Pool g' l' []) (hpool : w.Pool g' (a :: l') [])
    (hgrown : View.GrownTo g (db.view g) g' w) (hs : s.status = statusOverflow) (hn : s.nextOffset = 0)
    (hview : db₁.view g' = (w.popSlot true a).setSlot a s)
    (hdb₂ : (((db₁.fillPayload (g'.ptr a) (rest.take 48)).setNext (g'.ptr t)
      (g'.ptr a)).efSlotHeaderCrcStore t (g'.ptr t)).efSlotHeaderCrcStore a (g'.ptr a) = db₂) :
    (db₂.view g').Chains g' l' live (Function.update ch i (ch i ++ [a])) ∧
      Hung g (db.view g) i (ch i) rest a (db₂.view g') := by
  have hw := h.grow hpool hgrown
  have hfree : (w.slots a).status = statusFree := hpool.free List.mem_cons_self
  obtain ⟨h₂, hcore, hother, hpay, hpaya⟩ :=
    round_chains hw hi ht hs hn hview hpool₁ (List.length_take_le 48 rest) hdb₂
  have hna : ∀ j, j < g.n → ((db.view g).slots j).status ≠ statusFree → j ≠ a := by
    rintro j hj hst rfl
    rw [← hgrown.kept j hj] at hst
    exact hst hfree
  refine ⟨h₂, hna, fun j hj => ?_, fun j hj hst hji hjc => ?_, fun j hj hja => ?_, hpaya,
    hgrown.core.trans (.of_eq hcore)⟩
  · have hown : live j ∨ ∃ i, j ∈ ch i := by
      rcases List.mem_cons.mp hj with rfl | hj
      · exact .inl hi
      · exact .inr ⟨i, hj⟩
    exact ⟨(h.used_of_owned hown).1, h.ne_free_of_owned hown⟩
  · -- the last slot of the chain is the only other one that is written
    have hjt : j ≠ t := by
      rintro rfl
      have hm : j ∈ i :: ch i := by
        rw [ht]
        exact List.mem_append_right pre (List.mem_singleton_self j)
      rcases List.mem_cons.mp hm with hm | hm
      · exact hji hm
      · exact hjc hm
    rw [hother j (hna j hj hst) hjt]
    exact hgrown.kept j hj
  · rw [hpay j hja, hgrown.kept j hj]

/-- **A round** that is given no slot: the chain is given back, and the head is left without a
blob. -/
lemma round_failed {g' : Geometry} {l' : List ℕ} {db₁ : Db} {e : Err} (rest : List UInt8)
    (h : (db.view g).Chains g l live ch) (hi : live i) (hpool₁ : (db₁.view g').Pool g' l' [])
    (hgrown : View.GrownTo g (db.view g) g' (db₁.view g')) (herr : e ≠ .ok) :
    ∃ l'', ((db₁.blobAbandon i (g'.ptr i)).view g').Chains g' l'' live (Function.update ch i []) ∧
      (db.view g).KeepsOthers g ((db₁.blobAbandon i (g'.ptr i)).view g') i (ch i) ∧
      (db.view g).core.Extends ((db₁.blobAbandon i (g'.ptr i)).view g').core ∧
      Spilled (db.view g) i (ch i) rest ((db₁.blobAbandon i (g'.ptr i)).view g') e [] := by
  obtain ⟨l₂, h₂, hkeep, hcore, hblank⟩ := blobAbandon_chains (h.grow hpool₁ hgrown) hi
  refine ⟨l₂, h₂, ?_, hgrown.core.trans (.of_eq hcore), .failed e herr hblank⟩
  exact (hgrown.keepsOthers i (ch i)).trans hkeep hgrown.le fun j hj _ _ => hj

/-- **The overflow loop**, for the bytes that are left, with a head and a tail that are pointers
into the mapping as it is, when no slot is refused for its checksum. -/
lemma blobOverflowLoop_chains {base : ℕ} (h : (db.view g).Chains g l live ch) (hi : live i)
    (ht : i :: ch i = pre ++ [t]) (hroom : roomFor (g.n + overflowNeed rest.length))
    (hfuel : rest.length ≤ fuel) (hsteady : (db.view g).core.Steady) (hbase : db.mapAddr = base)
    (hcrc : BlankNonzero (g.n + overflowNeed rest.length) ∨
      (blobOverflowLoop i ⟨base, g.ptr i⟩ fuel ⟨base, g.ptr t⟩ t rest db).1 ≠ .badChecksum) :
    let r := blobOverflowLoop i ⟨base, g.ptr i⟩ fuel ⟨base, g.ptr t⟩ t rest db
    r.1 ≠ .badChecksum ∧ ∃ g' l' c, g.n ≤ g'.n ∧
      (r.2.view g').Chains g' l' live (Function.update ch i c) ∧
      (db.view g).KeepsOthers g (r.2.view g') i (ch i) ∧
      (db.view g).core.Extends (r.2.view g').core ∧
      Spilled (db.view g) i (ch i) rest (r.2.view g') r.1 c := by
  induction fuel generalizing g db l ch t pre rest with
  | zero =>
      have hnil : rest = [] := List.eq_nil_of_length_eq_zero (Nat.le_zero.mp hfuel)
      subst hnil
      refine ⟨fun h0 => (by cases h0), g, l, ch i, le_rfl, ?_, View.KeepsOthers.refl _ _ _ _, .refl _,
        .nil _ _ _⟩
      rw [Function.update_eq_self]
      exact h
  | succ fuel ih =>
      rw [blobOverflowLoop] at hcrc ⊢
      by_cases hrest : rest = []
      · subst hrest
        rw [if_pos rfl]
        refine ⟨fun h0 => (by cases h0), g, l, ch i, le_rfl, ?_, View.KeepsOthers.refl _ _ _ _,
          .refl _, .nil _ _ _⟩
        rw [Function.update_eq_self]
        exact h
      rw [if_neg hrest] at hcrc ⊢
      rw [overflowNeed_step (List.length_pos_iff.mpr hrest)] at hroom hcrc
      have hroom₁ : roomFor (g.n + 1) := roomFor_of_le hroom (by omega)
      -- whatever the allocation returns, the handle is mapped, and where it was
      obtain ⟨g₀, l₀, -, -, hpool₀, hdraws₀, -⟩ :=
        efAllocOverflowSlot_pool h.toPool hroom₁ fun _ => hsteady.unfailing
      have hmapped : db.efAllocOverflowSlot.2.2.2.isMapped = true := hpool₀.mapped
      have hbase₁ : db.efAllocOverflowSlot.2.2.2.mapAddr = base := by
        rw [mapAddr_eq _ g₀, hsteady.addr_eq hdraws₀.core]
        exact hbase
      have hcrc₁ : BlankNonzero (g.n + 1) ∨ db.efAllocOverflowSlot.1 ≠ .badChecksum := by
        refine hcrc.imp (fun hblank => hblank.mono (by omega)) fun hcode hbad => hcode ?_
        rcases hr : db.efAllocOverflowSlot with ⟨e, a, ov, db₁⟩
        rw [hr] at hbad hmapped hbase₁
        have hreach : db₁.reach ⟨base, g.ptr i⟩ = some (g.ptr i) := reach_of_addr hbase₁
        simp only at hbad hmapped
        subst hbad
        simp only [hmapped, if_true, hreach]
      obtain ⟨hbad, g₁, l₁, hle₁, hpool₁, halloc⟩ :=
        efAllocOverflowSlot_taken h.toPool hroom₁ hsteady.unfailing hcrc₁
      generalize db.efAllocOverflowSlot = r at hcrc hbad hpool₁ halloc hmapped hbase₁ ⊢
      obtain ⟨e, a, ov, db₁⟩ := r
      simp only at hbad hpool₁ halloc hmapped hbase₁
      have hptr : ∀ j, g₁.ptr j = g.ptr j := ptr_of_calm h.toCalm hpool₁.toCalm
      rcases halloc with ⟨herr, hgrown⟩ | ⟨hok, hov, w, s, hpool, hgrown, hs, hn, hview⟩
      · -- no slot is to be had
        obtain ⟨l₂, hres⟩ := round_failed rest h hi hpool₁ hgrown herr
        have hreach : db₁.reach ⟨base, g.ptr i⟩ = some (g.ptr i) := reach_of_addr hbase₁
        rw [hptr i] at hres
        cases e <;> first
          | exact absurd rfl herr
          | simp only [hmapped, if_true, hreach]
            exact ⟨hbad, g₁, l₂, [], hgrown.le, hres⟩
      -- the bytes of this round go to the slot taken
      subst hok hov
      have ha : a < g₁.n := hpool.lt List.mem_cons_self
      have hchunk : db₁.efBlobOverflowChunkCap = 48 := efPayloadCapacity_eq hpool₁.schema
      have hfillView := @view_fillPayload g₁ db₁ a hpool₁.schema ha (rest.take 48)
        (List.length_take_le 48 rest)
      have hoff : (db₁.fillPayload (g₁.ptr a) (rest.take 48)).efSlotToOffset a = g₁.ptr a := by
        refine efSlotToOffset_of_lt ?_ ha
        rw [hfillView, View.bound_setSlot]
        exact hpool₁.toBound
      have hreach : (db₁.fillPayload (g₁.ptr a) (rest.take 48)).reach ⟨base, g.ptr t⟩ = some
          (g.ptr t) :=
        reach_of_addr hbase₁
      simp only [hchunk, hoff, hreach] at hcrc ⊢
      rw [← hptr t, ← hptr i] at hcrc ⊢
      generalize hdb₂ : (((db₁.fillPayload (g₁.ptr a) (rest.take 48)).setNext (g₁.ptr t)
        (g₁.ptr a)).efSlotHeaderCrcStore t (g₁.ptr t)).efSlotHeaderCrcStore a (g₁.ptr a) = db₂
        at hcrc ⊢
      obtain ⟨h₂, hhung⟩ := round_hung h hi ht hpool₁ hpool hgrown hs hn hview hdb₂
      have hcap₂ : db₂.efBlobOverflowChunkCap = 48 := efPayloadCapacity_eq h₂.schema
      have hbase₂ : db₂.mapAddr = base := by
        rw [mapAddr_eq db₂ g₁, hsteady.addr_eq hhung.core]
        exact hbase
      have hself : Function.update ch i (ch i ++ [a]) i = ch i ++ [a] := Function.update_self i _ ch
      have ht₂ : i :: Function.update ch i (ch i ++ [a]) i = (i :: ch i) ++ [a] := by
        rw [hself]
        rfl
      unfold pointer at hcrc ⊢
      rw [hcap₂, hbase₂] at hcrc ⊢
      have hneed : g₁.n + overflowNeed (rest.drop 48).length ≤
          g.n + (overflowNeed (rest.length - 48) + 1) := by
        rw [List.length_drop]
        omega
      obtain ⟨hbad₃, g₃, l₃, c, hle₃, h₃, hkeep₃, hext₃, hspill⟩ := ih h₂ ht₂
        (roomFor_of_le hroom hneed) (by rw [List.length_drop]; omega) (hsteady.extends hhung.core)
        hbase₂ (hcrc.imp_left fun hblank => hblank.mono hneed)
      rw [Function.update_idem] at h₃
      rw [hself] at hkeep₃ hspill
      exact ⟨hbad₃, g₃, l₃, c, hgrown.le.trans hle₃, h₃, hhung.keepsOthers hgrown.le hkeep₃,
        hhung.core.trans hext₃, hhung.spilled hrest hspill⟩

/-! ### The calls -/

/-- What the head holds once the bytes are in place. -/
lemma content_of_spilled {v w : View} {e : List ℕ} {old : List UInt8} (hlen : data.length ≤ 0xFFFFFFFF)
    (hold : old.length = 48)
    (hpay : (v.slots i).payload = leBytes 4 blobMagic ++ leBytes 4 data.length ++
      (data.take 40 ++ old.drop (8 + (data.take 40).length)))
    (hkept : (w.slots i).payload = (v.slots i).payload)
    (hchunks : e.length = overflowNeed (data.drop 40).length)
    (hbytes : (e.flatMap fun j => (w.slots j).payload).take (data.drop 40).length = data.drop 40) :
    w.Content i e (some data) := by
  have hhead : (leBytes 4 blobMagic ++ leBytes 4 data.length).length = 8 := by
    rw [List.length_append, length_leBytes, length_leBytes]
  rw [hpay] at hkept
  refine ⟨hlen, ?_, ?_, ?_⟩
  · rw [hkept]
    exact List.take_left' hhead
  · rw [hchunks, List.length_drop]
  · unfold View.blobBytes
    rw [hkept, List.drop_left' hhead]
    rcases le_total data.length 40 with hle | hle
    · rw [List.take_of_length_le hle, List.append_assoc]
      exact List.take_left' rfl
    · have hin : (data.take 40).length = 40 := by
        rw [List.length_take]
        exact min_eq_left hle
      have hdrop : old.drop (8 + (data.take 40).length) = [] := by
        refine List.drop_eq_nil_of_le ?_
        rw [hin, hold]
      rw [hdrop, List.append_nil, List.take_append, hin, List.take_of_length_le
          (by rw [hin]; exact hle)]
      rw [List.length_drop] at hbytes
      rw [hbytes]
      exact List.take_append_drop 40 data

/-- What a write to the head `i`, whose chain is `c`, comes to when no slot is refused for its
checksum: the head holds the data, or no blob if the write does not succeed, and the other heads are
as they were. -/
def HeadWritten (g : Geometry) (v : View) (live : ℕ → Prop) (ch : ℕ → List ℕ) (i : ℕ) (c : List ℕ)
    (data : List UInt8) (r : Err × Db) : Prop :=
  r.1 ≠ .badChecksum ∧ ∃ g' l' c', (r.2.view g').Chains g' l' live (Function.update ch i c') ∧
    v.KeepsOthers g (r.2.view g') i c ∧ v.core.Extends (r.2.view g').core ∧
    (r.2.view g').Content i c' (if r.1 = .ok then some data else none)

/-- The head is sealed: its status and its checksum are written, and its payload stays.
Source: `endfields.c`, `ef_write_blob` -/
lemma sealedHead_chains (h : (db.view g).Chains g l live ch) (hi : live i) {c : List ℕ}
    {content : Option (List UInt8)} (hcontent : (db.view g).Content i c content) :
    let v := (((db.setStatus (g.ptr i) statusUsed).efSlotHeaderCrcStore i (g.ptr i)).setError
      .ok).view g
    v.Chains g l live ch ∧ (db.view g).KeepsOthers g v i [] ∧ v.core = (db.view g).core ∧
      v.Content i c content := by
  obtain ⟨hlt, hused⟩ := h.head i hi
  have hfinal : (((db.setStatus (g.ptr i) statusUsed).efSlotHeaderCrcStore i (g.ptr i)).setError
      .ok).view g = (db.view g).setSlot i (Slot.sealed (db.view g).sb.slotCrc i
        { (db.view g).slots i with status := statusUsed }) := by
    rw [view_setError, view_efSlotHeaderCrcStore hlt, view_setStatus hlt]
    simp
  simp only
  rw [hfinal]
  refine ⟨h.setSlot (.inl hi) ?_ (Slot.sealed_nextOffset _ _ _),
    View.setSlot_keepsOthers _ g i [] _, rfl, hcontent.congr ?_ fun j hj => ?_⟩
  · rw [Slot.sealed_status, hused]
  · rw [View.setSlot_slots, Function.update_self, Slot.sealed_payload]
  · rw [View.setSlot_slots, Function.update_apply]
    split_ifs with hji
    · rw [Slot.sealed_payload, hji]
    · rfl

/-- **Header, inline bytes and overflow** of a blob, on a head without a chain. -/
lemma blobFill_chains (h : (db.view g).Chains g l live ch) (hi : live i) (hc : ch i = [])
    (hlen : data.length ≤ 0xFFFFFFFF) (hroom : roomFor (g.n + overflowNeed (data.length - 40)))
    (hsteady : (db.view g).core.Steady)
    (hcrc : BlankNonzero (g.n + overflowNeed (data.length - 40)) ∨
      (db.blobFill i (g.ptr i) data).1 ≠ .badChecksum) :
    HeadWritten g (db.view g) live ch i [] data (db.blobFill i (g.ptr i) data) := by
  obtain ⟨hlt, hused⟩ := h.head i hi
  have hidle : db.txnActive = false := h.idle
  have hptr : db.efSlotPayloadPtr (g.ptr i) = g.ptr i + 8 := efSlotPayloadPtr_eq h.schema _
  have hold : ((db.view g).slots i).payload.length = 48 := view_length_payload db hlt
  have hview := view_blobHeader db hlt blobMagic data.length (List.length_take_le 40 data)
  unfold blobFill at hcrc ⊢
  simp only [hptr, hidle, Bool.false_eq_true, if_false] at hcrc ⊢
  have hcap : ((db.store (g.ptr i + 8) 4 blobMagic).store (g.ptr i + 8 + 4) 4
      data.length).efBlobInlineCapacity = 40 := by
    have hsb : (((db.store (g.ptr i + 8) 4 blobMagic).store (g.ptr i + 8 + 4) 4
        data.length).view g).sb = (db.view g).sb := by
      have hp := g.base_le_ptr i
      have hb := g.base_ge
      refine Superblock.read_congr fun x hx => (store_apply_of_outside (.inl (by omega))).trans ?_
      exact store_apply_of_outside (.inl (by omega))
    unfold efBlobInlineCapacity
    rw [efPayloadCapacity_eq (g := g) (by rw [hsb]; exact h.schema)]
  rw [hcap] at hcrc ⊢
  generalize ((db.store (g.ptr i + 8) 4 blobMagic).store (g.ptr i + 8 + 4) 4 data.length).copyIn
    (g.ptr i + 8 + 8) (data.take 40) = db₁ at hview hcrc ⊢
  have h₁ : (db₁.view g).Chains g l live ch := by
    rw [hview]
    exact h.setSlot (.inl hi) rfl rfl
  have hcap₁ : db₁.efBlobInlineCapacity = 40 := by
    unfold efBlobInlineCapacity
    rw [efPayloadCapacity_eq h₁.schema]
  rw [hcap₁] at hcrc ⊢
  have ht : i :: ch i = [] ++ [i] := by
    rw [hc]
    rfl
  have hrest : (data.drop 40).length ≤ data.length := by
    rw [List.length_drop]
    exact Nat.sub_le _ _
  have hpay : ((db₁.view g).slots i).payload = leBytes 4 blobMagic ++ leBytes 4 data.length ++
      (data.take 40 ++ ((db.view g).slots i).payload.drop (8 + (data.take 40).length)) := by
    rw [hview, View.setSlot_slots, Function.update_self]
  have hkeep₁ : (db.view g).KeepsOthers g (db₁.view g) i [] := by
    rw [hview]
    exact View.setSlot_keepsOthers _ _ _ _ _
  have hcore₁ : (db₁.view g).core = (db.view g).core := by
    rw [hview]
    rfl
  have hsteady₁ : (db₁.view g).core.Steady := by rwa [hcore₁]
  have hbase₁ : db₁.mapAddr = db.mapAddr := by
    rw [mapAddr_eq db₁ g, hcore₁]
    rfl
  unfold pointer at hcrc ⊢
  have hcrc₁ : BlankNonzero (g.n + overflowNeed (data.drop 40).length) ∨
      (blobOverflowLoop i ⟨db.mapAddr, g.ptr i⟩ data.length ⟨db.mapAddr, g.ptr i⟩ i
        (data.drop 40) db₁).1 ≠ .badChecksum := by
    rw [List.length_drop]
    refine hcrc.imp_right fun hcode hbad => hcode ?_
    rcases hr : blobOverflowLoop i ⟨db.mapAddr, g.ptr i⟩ data.length ⟨db.mapAddr, g.ptr i⟩ i
      (data.drop 40) db₁ with ⟨e, db₂⟩
    rw [hr] at hbad
    simp only at hbad
    subst hbad
    rfl
  obtain ⟨hbad, g₂, l₂, c, hle, h₂, hkeep₂, hext₂, hspill⟩ :=
    blobOverflowLoop_chains h₁ hi ht (by rw [List.length_drop]; exact hroom) hrest hsteady₁ hbase₁ hcrc₁
  rw [hc] at hkeep₂ hspill
  rw [hcore₁] at hext₂
  have hptr₂ : g₂.ptr i = g.ptr i := ptr_of_calm h.toCalm h₂.toCalm i
  generalize blobOverflowLoop i ⟨db.mapAddr, g.ptr i⟩ data.length ⟨db.mapAddr, g.ptr i⟩ i
    (data.drop 40) db₁ = r at hbad h₂ hkeep₂ hext₂ hspill ⊢
  have hkeep := hkeep₁.trans hkeep₂ le_rfl fun j hj _ _ => hj
  obtain ⟨e, db₂⟩ := r
  cases hspill with
  | failed _ herr hblank =>
      have hres : HeadWritten g (db.view g) live ch i [] data (e, db₂) := by
        refine ⟨hbad, g₂, l₂, [], h₂, hkeep, hext₂, ?_⟩
        show (db₂.view g₂).Content i [] (if e = .ok then some data else none)
        rw [if_neg herr]
        exact hblank
      cases e <;> first | exact absurd rfl herr | exact hres
  | ok e hchunks hbytes hkept =>
      rw [List.nil_append] at h₂
      have hcontent : (db₂.view g₂).Content i e (some data) :=
        content_of_spilled hlen hold hpay (hkept i List.mem_cons_self) hchunks hbytes
      have hreach : db₂.reach ⟨db.mapAddr, g.ptr i⟩ = some (g.ptr i) := by
        refine reach_of_addr ?_
        rw [mapAddr_eq db₂ g₂]
        exact hsteady.addr_eq hext₂
      simp only [hreach]
      rw [← hptr₂]
      obtain ⟨h₃, hkeep₃, hcore₃, hcontent₃⟩ := sealedHead_chains h₂ hi hcontent
      exact ⟨fun h0 => (by cases h0), g₂, l₂, e, h₃, hkeep.trans hkeep₃ hle fun j hj _ _ => hj,
        hext₂.trans (.of_eq hcore₃), hcontent₃⟩

/-- The old chain of a head is given back, and the head is sealed without it. -/
lemma efBlobReleaseChain_chains (h : (db.view g).Chains g l live ch) (hi : live i) :
    (db.efBlobReleaseChain i (g.ptr i)).1 = .ok ∧
      ∃ l', ((db.efBlobReleaseChain i (g.ptr i)).2.view g).Chains g l' live (Function.update ch i []) ∧
        (db.view g).KeepsOthers g ((db.efBlobReleaseChain i (g.ptr i)).2.view g) i (ch i) ∧
        ((db.efBlobReleaseChain i (g.ptr i)).2.view g).core = (db.view g).core ∧
        (efSlotHeaderCrcCompute i { (db.view g).slots i with nextOffset := 0 } ≠ 0 →
          (((db.efBlobReleaseChain i (g.ptr i)).2.view g).slots i).crcValid
            ((db.efBlobReleaseChain i (g.ptr i)).2.view g).sb.slotCrc i = true) := by
  obtain ⟨hlt, hused⟩ := h.head i hi
  obtain ⟨hok, hview⟩ := efBlobReleaseChain_linked h.toPool hlt hused (h.chain i hi)
    fun j hj => (h.overflow i j hj).2
  obtain ⟨l', hchains, hkeep, hself⟩ := h.release (s := Slot.sealed (db.view g).sb.slotCrc i
    { (db.view g).slots i with nextOffset := 0 }) hi (by rw [Slot.sealed_status]; exact hused)
    (Slot.sealed_nextOffset _ _ _)
  rw [hview]
  refine ⟨hok, l', hchains, hkeep, View.pushSlots_core _, fun hne => ?_⟩
  rw [hself, View.pushSlots_slotCrc]
  exact Slot.crcValid_sealed fun _ _ => hne

/-- None of the slots that a write to the head `i` checks has the checksum `0`: the head as it is,
the head without its chain, and a slot below `n` when it is handed out. -/
structure CheckedNonzero (v : View) (i n : ℕ) : Prop where
  head : (v.slots i).crcValid v.sb.slotCrc i = true
  unlinked : efSlotHeaderCrcCompute i { v.slots i with nextOffset := 0 } ≠ 0
  blank : BlankNonzero n

/-- **`ef_write_blob`** on a head: the blob that it is given, or none if that does not succeed. -/
lemma efWriteBlob_chains (h : (db.view g).Chains g l live ch) (hi : live i)
    (hlen : data.length ≤ 0xFFFFFFFF) (hroom : roomFor (g.n + overflowNeed (data.length - 40)))
    (hsteady : (db.view g).core.Steady)
    (hcrc : CheckedNonzero (db.view g) i (g.n + overflowNeed (data.length - 40)) ∨
      (db.efWriteBlob i data).1 ≠ .badChecksum) :
    HeadWritten g (db.view g) live ch i (ch i) data (db.efWriteBlob i data) := by
  obtain ⟨hlt, hused⟩ := h.head i hi
  have hcap : db.efPayloadCapacity = 48 := efPayloadCapacity_eq h.schema
  unfold efWriteBlob at hcrc ⊢
  rw [efDbRequireWrite_eq h.writable] at hcrc ⊢
  simp only at hcrc ⊢
  rw [if_neg (not_lt.mpr hlen),
    if_neg (by unfold efBlobInlineCapacity efBlobOverflowChunkCap; omega),
    efGetSlot_of_lt h.toBound hlt] at hcrc ⊢
  have hv : ((db.view g).slots i).crcValid (db.view g).sb.slotCrc i = true := by
    rcases hcrc with hnonzero | hcode
    · exact hnonzero.head
    · by_contra hv
      rw [if_neg hv] at hcode
      exact hcode rfl
  rw [if_pos hv] at hcrc ⊢
  have hslot : (db.setError .ok).slotAt (g.ptr i) = (db.view g).slots i := slotAt_eq db hlt
  have hidle : (db.setError .ok).txnActive = false := h.idle
  have hne : ¬ ((db.view g).slots i).status = statusFree := by rw [hused]; simp
  simp only [hslot] at hcrc ⊢
  rw [if_neg hne] at hcrc ⊢
  simp only [hslot, hused, ne_eq, not_true, hidle, Bool.false_eq_true, if_false] at hcrc ⊢
  have h₀ : ((db.setError .ok).view g).Chains g l live ch := h
  obtain ⟨hok, l₁, h₁, hkeep₁, hcore₁, hself₁⟩ := efBlobReleaseChain_chains h₀ hi
  generalize (db.setError .ok).efBlobReleaseChain i (g.ptr i) = r
    at hcrc hok h₁ hkeep₁ hcore₁ hself₁ ⊢
  obtain ⟨e, db₁⟩ := r
  simp only at hok h₁ hkeep₁ hcore₁ hself₁
  subst hok
  simp only at hcrc ⊢
  rw [efGetSlot_of_lt h₁.toBound hlt] at hcrc ⊢
  have hv₁ : ((db₁.view g).slots i).crcValid (db₁.view g).sb.slotCrc i = true := by
    rcases hcrc with hnonzero | hcode
    · exact hself₁ hnonzero.unlinked
    · by_contra hv₁
      rw [if_neg hv₁] at hcode
      exact hcode rfl
  rw [if_pos hv₁] at hcrc ⊢
  simp only at hcrc ⊢
  have h₂ : ((db₁.setError .ok).view g).Chains g l₁ live (Function.update ch i []) := h₁
  have hcore₂ : ((db₁.setError .ok).view g).core = (db.view g).core := hcore₁
  have hsteady₂ : ((db₁.setError .ok).view g).core.Steady := by rwa [hcore₂]
  obtain ⟨hbad, g', l', c, h₃, hkeep₃, hext₃, hcontent⟩ :=
    blobFill_chains h₂ hi (Function.update_self i [] ch) hlen hroom hsteady₂
      (hcrc.imp_left fun hnonzero => hnonzero.blank)
  rw [Function.update_idem] at h₃
  rw [hcore₂] at hext₃
  refine ⟨hbad, g', l', c, h₃, hkeep₁.trans hkeep₃ le_rfl fun j hj _ _ => ?_, hext₃, hcontent⟩
  exact absurd hj List.not_mem_nil

/-- **`ef_free_slot`** on a head gives back the head and its chain. -/
lemma efFreeSlot_chains (h : (db.view g).Chains g l live ch) (hi : live i)
    (hcrc : ((db.view g).slots i).crcValid (db.view g).sb.slotCrc i = true ∨
      (db.efFreeSlot i).1 ≠ .badChecksum) :
    (db.efFreeSlot i).1 = .ok ∧ ∃ l', ((db.efFreeSlot i).2.view g).Chains g l'
        (fun j => j ≠ i ∧ live j) (Function.update ch i []) ∧
      (db.view g).KeepsOthers g ((db.efFreeSlot i).2.view g) i (ch i) ∧
      ((db.efFreeSlot i).2.view g).core = (db.view g).core := by
  obtain ⟨hlt, hused⟩ := h.head i hi
  have hslot : (db.setError .ok).slotAt (g.ptr i) = (db.view g).slots i := slotAt_eq db hlt
  have h₀ : ((db.setError .ok).view g).Chains g l live ch := h
  unfold efFreeSlot at hcrc ⊢
  rw [efDbRequireWrite_eq h.writable] at hcrc ⊢
  simp only at hcrc ⊢
  rw [efPeekSlot_of_lt h.toBound hlt] at hcrc ⊢
  simp only [hslot, hused] at hcrc ⊢
  rw [if_neg (by simp), if_neg (by simp), if_neg (by simp)] at hcrc ⊢
  have hbad : ¬ (db.setError .ok).efSlotHeaderCrcValid i ((db.view g).slots i) = false := by
    rcases hcrc with hvalid | hcode
    · exact fun hbad => Bool.false_ne_true (hbad.symm.trans hvalid)
    · intro hbad
      rw [if_pos ⟨.inl trivial, hbad⟩] at hcode
      exact hcode rfl
  rw [if_neg fun hb => hbad hb.2, if_pos trivial]
  obtain ⟨hok, l₁, h₁, hkeep₁, hcore₁, -⟩ := efBlobReleaseChain_chains h₀ hi
  generalize (db.setError .ok).efBlobReleaseChain i (g.ptr i) = r at hok h₁ hkeep₁ hcore₁ ⊢
  obtain ⟨e, db₁⟩ := r
  simp only at hok h₁ hkeep₁ hcore₁
  subst hok
  have hidle : db₁.txnActive = false := h₁.idle
  simp only [hidle, Bool.false_eq_true, if_false]
  obtain ⟨hok₂, hview₂⟩ := efReturnSlotToPool_calm h₁.toCalm hlt
  have h₂ := h₁.dropHead hi (Function.update_self i [] ch)
  rw [← hview₂] at h₂
  refine ⟨hok₂, i :: l₁, h₂, fun j hj hst hji hjc => ?_, by rw [hview₂]; exact hcore₁⟩
  rw [hview₂, View.pushSlot_slots_of_ne hji]
  exact hkeep₁ j hj hst hji hjc

end Db

end Endfields.Model
