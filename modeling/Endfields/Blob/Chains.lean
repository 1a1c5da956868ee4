import Endfields.Blob.Taken

/-!
# The chains that share a pool

The slots in use of a pool, when they are heads of blobs and overflow slots only.

* `View.Chains g v l live ch`: the heads are the slots `i` with `live i`, and the overflow slots
  `ch i` hang on head `i`; no overflow slot is in two chains, and every slot in use is a head or in
  a chain.
* **The steps**: a slot is written (`Chains.setSlot`), the database grows (`Chains.grow`), a slot
  becomes a head (`Chains.addHead`), a chain gets one slot more (`Chains.extend`), a chain is given
  back (`Chains.release`), a head is given back (`Chains.dropHead`).
-/

namespace Endfields.Model

open Endfields.Lib

namespace View

/-- The slots in use are heads, and overflow slots that hang on one head each. -/
structure Chains (g : Geometry) (v : View) (l : List ℕ) (live : ℕ → Prop) (ch : ℕ → List ℕ) : Prop
    extends View.Pool g v l [] where
  head : ∀ i, live i → i < g.n ∧ (v.slots i).status = statusUsed
  chain : ∀ i, live i → Linked g.idOf (fun j => (v.slots j).nextOffset) (v.slots i).nextOffset (ch i) 0
  overflow : ∀ i j, j ∈ ch i → live i ∧ (v.slots j).status = statusOverflow
  disjoint : ∀ i i' j, j ∈ ch i → j ∈ ch i' → i = i'
  cover : ∀ j, j < g.n → (v.slots j).status ≠ statusFree → live j ∨ ∃ i, j ∈ ch i

/-- The slots in use of `v` other than the head `i` and its chain are in `w` as they are in `v`. -/
def KeepsOthers (g : Geometry) (v w : View) (i : ℕ) (c : List ℕ) : Prop :=
  ∀ j, j < g.n → (v.slots j).status ≠ statusFree → j ≠ i → j ∉ c → w.slots j = v.slots j

namespace Chains

variable {g g' : Geometry} {v w : View} {l l' : List ℕ} {live live' : ℕ → Prop} {ch : ℕ → List ℕ}
  {i j t a : ℕ} {s : Slot} {pre : List ℕ} (h : v.Chains g l live ch)

include h

/-- A slot of a chain is a slot of the layout. -/
lemma lt_of_mem (hj : j ∈ ch i) : j < g.n := by
  obtain ⟨hi, -⟩ := h.overflow i j hj
  obtain ⟨o, ho⟩ := (h.chain i hi).exists_of_mem hj
  exact ((g.idOf_eq_some_iff _ _).mp ho).1

/-- A chain has no slot twice. -/
lemma nodup_chain (hi : live i) : (ch i).Nodup := (h.chain i hi).nodup g.idOf_zero

/-- A head is in no chain. -/
lemma not_mem_of_live (hj : live j) : j ∉ ch i := by
  intro hm
  have hov := (h.overflow i j hm).2
  rw [(h.head j hj).2] at hov
  simp at hov

/-- A slot that is no head has no chain. -/
lemma chain_eq_nil (hi : ¬ live i) : ch i = [] := by
  rcases hc : ch i with _ | ⟨j, c⟩
  · rfl
  · exact absurd (h.overflow i j (hc ▸ List.mem_cons_self)).1 hi

/-- A head, or a slot of a chain, is in use. -/
lemma used_of_owned (hj : live j ∨ ∃ i, j ∈ ch i) :
    j < g.n ∧ ((v.slots j).status = statusUsed ∨ (v.slots j).status = statusOverflow) := by
  rcases hj with hj | ⟨i, hj⟩
  · exact ⟨(h.head j hj).1, .inl (h.head j hj).2⟩
  · exact ⟨h.lt_of_mem hj, .inr (h.overflow i j hj).2⟩

/-- A slot of a blob is not FREE. -/
lemma ne_free_of_owned (hj : live j ∨ ∃ i, j ∈ ch i) : (v.slots j).status ≠ statusFree := by
  rcases (h.used_of_owned hj).2 with hs | hs <;> rw [hs] <;> simp

/-- The heads may be described in another way. -/
lemma congr_live (hlive : ∀ j, live' j ↔ live j) : v.Chains g l live' ch := by
  have heq : live' = live := funext fun j => propext (hlive j)
  rw [heq]
  exact h

/-! ### The steps -/

/-- What is kept of a view whose slots keep their statuses and links. -/
lemma congr (hw : w.Pool g l' []) (hstatus : ∀ j, (w.slots j).status = (v.slots j).status)
    (hnext : ∀ j, (w.slots j).nextOffset = (v.slots j).nextOffset) : w.Chains g l' live ch := by
  refine ⟨hw, fun i hi => ?_, fun i hi => ?_, fun i j hj => ?_, h.disjoint, fun j hj hst => ?_⟩
  · rw [hstatus]
    exact h.head i hi
  · rw [hnext]
    exact (h.chain i hi).mono fun o a _ ho => ⟨ho, (hnext a).symm⟩
  · rw [hstatus]
    exact h.overflow i j hj
  · rw [hstatus] at hst
    exact h.cover j hj hst

/-- A head or a slot of a chain is written, its status and link apart. -/
lemma setSlot (hj : live j ∨ ∃ i, j ∈ ch i) (hs : s.status = (v.slots j).status)
    (hn : s.nextOffset = (v.slots j).nextOffset) : (v.setSlot j s).Chains g l live ch := by
  have hst := (h.used_of_owned hj).2
  have hne := h.ne_free_of_owned hj
  have hoff : v.OffQueue g [] j := by
    refine h.queue.off_of_status ?_ ?_ <;> rcases hst with hst | hst <;> rw [hst] <;> simp
  refine h.congr (h.toPool.setSlot hne (by rw [hs]; exact hne) hoff) (fun k => ?_) fun k => ?_
  · rw [setSlot_slots, Function.update_apply]
    split_ifs with hk
    · rw [hs, hk]
    · rfl
  · rw [setSlot_slots, Function.update_apply]
    split_ifs with hk
    · rw [hn, hk]
    · rfl

/-- A pool that has grown. -/
lemma grow (hw : w.Pool g' l' []) (hgrown : GrownTo g v g' w) : w.Chains g' l' live ch := by
  have hcap : g'.cap = g.cap := hw.noIndex.trans h.noIndex.symm
  refine ⟨hw, fun i hi => ?_, fun i hi => ?_, fun i j hj => ?_, h.disjoint, fun j hj hst => ?_⟩
  · obtain ⟨hlt, hused⟩ := h.head i hi
    rw [hgrown.kept i hlt]
    exact ⟨lt_of_lt_of_le hlt hgrown.le, hused⟩
  · rw [hgrown.kept i (h.head i hi).1]
    refine (h.chain i hi).mono fun o a ha ho => ⟨idOf_of_le hcap hgrown.le ho, ?_⟩
    rw [hgrown.kept a (h.lt_of_mem ha)]
  · rw [hgrown.kept j (h.lt_of_mem hj)]
    exact h.overflow i j hj
  · obtain ⟨hlt, hst⟩ := hgrown.used hj hst
    exact h.cover j hlt hst

/-- A free slot is neither a head nor in a chain. -/
lemma not_owned_of_free (hf : (v.slots j).status = statusFree) : ¬ live j ∧ ∀ i, j ∉ ch i :=
  ⟨fun hl => h.ne_free_of_owned (.inl hl) hf, fun i hm => h.ne_free_of_owned (.inr ⟨i, hm⟩) hf⟩

/-- A free slot that is written, and is in use afterwards. -/
lemma take_slots (hf : (v.slots a).status = statusFree)
    (hslots : ∀ j, j ≠ a → w.slots j = v.slots j) :
    (∀ i, live i → i < g.n ∧ (w.slots i).status = statusUsed) ∧
      (∀ i, live i → Linked g.idOf (fun j => (w.slots j).nextOffset) (w.slots i).nextOffset (ch i) 0) ∧
      ∀ i j, j ∈ ch i → live i ∧ (w.slots j).status = statusOverflow := by
  obtain ⟨hna, hca⟩ := h.not_owned_of_free hf
  have hmem : ∀ i j, j ∈ ch i → j ≠ a := fun i j hj heq => hca i (heq ▸ hj)
  have hne : ∀ i, live i → i ≠ a := fun i hi heq => hna (heq ▸ hi)
  refine ⟨fun i hi => ?_, fun i hi => ?_, fun i j hj => ?_⟩
  · rw [hslots i (hne i hi)]
    exact h.head i hi
  · rw [hslots i (hne i hi)]
    exact (h.chain i hi).mono fun o b hb ho => ⟨ho, by rw [hslots b (hmem i b hb)]⟩
  · rw [hslots j (hmem i j hj)]
    exact h.overflow i j hj

/-- **A new head** has no chain. -/
lemma addHead (hw : w.Pool g l' []) (ha : a < g.n) (hf : (v.slots a).status = statusFree)
    (hslots : ∀ j, j ≠ a → w.slots j = v.slots j) (hused : (w.slots a).status = statusUsed)
    (hnext : (w.slots a).nextOffset = 0) : w.Chains g l' (fun j => j = a ∨ live j) ch := by
  obtain ⟨hhead, hchain, hov⟩ := h.take_slots hf hslots
  refine ⟨hw, fun i hi => ?_, fun i hi => ?_, fun i j hj => ?_, h.disjoint, fun j hj hst => ?_⟩
  · rcases hi with rfl | hi
    · exact ⟨ha, hused⟩
    · exact hhead i hi
  · rcases hi with rfl | hi
    · rw [hnext, h.chain_eq_nil (h.not_owned_of_free hf).1]
      rfl
    · exact hchain i hi
  · exact ⟨.inr (hov i j hj).1, (hov i j hj).2⟩
  · by_cases hja : j = a
    · exact .inl (.inl hja)
    · rw [hslots j hja] at hst
      exact (h.cover j hj hst).imp_left .inr

/-- **A chain of one slot more**: the free slot `a` becomes an overflow slot behind the last slot
`t` of the head and its chain. -/
lemma extend (hw : w.Pool g l' []) (hi : live i) (ht : i :: ch i = pre ++ [t]) (ha : a < g.n)
    (hf : (v.slots a).status = statusFree) (hslots : ∀ j, j ≠ a → j ≠ t → w.slots j = v.slots j)
    (htst : (w.slots t).status = (v.slots t).status) (htnext : (w.slots t).nextOffset = g.ptr a)
    (hast : (w.slots a).status = statusOverflow) (hanext : (w.slots a).nextOffset = 0) :
    w.Chains g l' live (Function.update ch i (ch i ++ [a])) := by
  obtain ⟨hna, hca⟩ := h.not_owned_of_free hf
  have hown : ∀ j ∈ i :: ch i, live j ∨ ∃ i, j ∈ ch i := by
    intro j hj
    rcases List.mem_cons.mp hj with rfl | hj
    · exact .inl hi
    · exact .inr ⟨i, hj⟩
  have htmem : t ∈ i :: ch i := by
    rw [ht]
    exact List.mem_append_right pre (List.mem_singleton_self t)
  have hta : t ≠ a := by
    intro heq
    exact h.ne_free_of_owned (hown t htmem) (heq ▸ hf)
  -- statuses stay, but for that of the new slot
  have hstatus : ∀ j, j ≠ a → (w.slots j).status = (v.slots j).status := by
    intro j hja
    by_cases hjt : j = t
    · rw [hjt, htst]
    · rw [hslots j hja hjt]
  -- the last slot of one chain is in no other one
  have hother : ∀ i' j, live i' → i' ≠ i → j ∈ i' :: ch i' → j ≠ t := by
    intro i' j hi' hne hj heq
    subst heq
    rcases List.mem_cons.mp htmem with rfl | htc
    · rcases List.mem_cons.mp hj with rfl | hj
      · exact hne rfl
      · exact h.not_mem_of_live hi hj
    · rcases List.mem_cons.mp hj with rfl | hj
      · exact h.not_mem_of_live hi' htc
      · exact hne (h.disjoint i' i j hj htc)
  refine ⟨hw, fun k hk => ?_, fun k hk => ?_, fun k j hj => ?_, fun k k' j hj hj' => ?_,
    fun j hj hst => ?_⟩
  · rw [hstatus k fun heq => hna (heq ▸ hk)]
    exact h.head k hk
  · by_cases hki : k = i
    · subst hki
      rw [Function.update_self]
      -- the list from the head on, with the head in front
      have hold : Linked g.idOf (fun j => (v.slots j).nextOffset) (g.ptr k) (pre ++ [t]) 0 := by
        rw [← ht]
        exact ⟨g.idOf_ptr (h.head k hk).1, h.chain k hk⟩
      have hnd : (pre ++ [t]).Nodup := hold.nodup g.idOf_zero
      have hlist : pre ++ t :: [a] = k :: (ch k ++ [a]) := by
        rw [List.append_cons, ← ht]
        rfl
      have hnew : Linked g.idOf (fun j => (w.slots j).nextOffset) (g.ptr k) (pre ++ t :: [a]) 0 := by
        refine hold.extend (fun _ _ ho => ho) (fun b hb => ?_) ?_
        swap
        · show Linked g.idOf _ (w.slots t).nextOffset [a] 0
          rw [htnext]
          exact ⟨g.idOf_ptr ha, hanext⟩
        have hbt : b ≠ t := fun heq =>
          (List.nodup_append.mp hnd).2.2 b hb t (List.mem_singleton_self t) heq
        have hbmem : b ∈ k :: ch k := by
          rw [ht]
          exact List.mem_append_left [t] hb
        have hba : b ≠ a := fun heq => h.ne_free_of_owned (hown b hbmem) (heq ▸ hf)
        show (w.slots b).nextOffset = (v.slots b).nextOffset
        rw [hslots b hba hbt]
      rw [hlist] at hnew
      exact hnew.2
    · rw [Function.update_of_ne hki]
      have hsame : ∀ j ∈ k :: ch k, w.slots j = v.slots j := by
        intro j hj
        refine hslots j ?_ (hother k j hk hki hj)
        rintro rfl
        rcases List.mem_cons.mp hj with rfl | hj
        · exact hna hk
        · exact hca k hj
      rw [hsame k List.mem_cons_self]
      exact (h.chain k hk).mono fun o b hb ho =>
        ⟨ho, by rw [hsame b (List.mem_cons_of_mem k hb)]⟩
  · by_cases hja : j = a
    · subst hja
      by_cases hki : k = i
      · exact ⟨hki ▸ hi, hast⟩
      · rw [Function.update_of_ne hki] at hj
        exact absurd hj (hca k)
    · rw [hstatus j hja]
      refine h.overflow k j ?_
      rw [Function.update_apply] at hj
      split_ifs at hj with hki
      · rw [hki]
        exact (List.mem_append.mp hj).resolve_right (by simpa using hja)
      · exact hj
  · -- the new slot is in the chain of `i` only, the others are where they were
    have hback : ∀ k, j ∈ Function.update ch i (ch i ++ [a]) k → j ∈ ch k ∨ (j = a ∧ k = i) := by
      intro k hm
      rw [Function.update_apply] at hm
      split_ifs at hm with hki
      · rw [hki]
        exact (List.mem_append.mp hm).imp id fun hm => ⟨List.mem_singleton.mp hm, rfl⟩
      · exact .inl hm
    rcases hback k hj with hm | ⟨hja, hki⟩ <;> rcases hback k' hj' with hm' | ⟨hja', hki'⟩
    · exact h.disjoint k k' j hm hm'
    · exact absurd (hja' ▸ hm) (hca k)
    · exact absurd (hja ▸ hm') (hca k')
    · rw [hki, hki']
  · by_cases hja : j = a
    · refine .inr ⟨i, ?_⟩
      rw [Function.update_self, hja]
      exact List.mem_append_right _ (List.mem_singleton_self a)
    · rw [hstatus j hja] at hst
      refine (h.cover j hj hst).imp_right fun ⟨k, hk⟩ => ⟨k, ?_⟩
      rw [Function.update_apply]
      split_ifs with hki
      · exact List.mem_append_left [a] (hki ▸ hk)
      · exact hk

/-- The slots of the chain of `i` are given back, the link of the head is cleared. -/
lemma release (hi : live i) (hs : s.status = statusUsed) (hn : s.nextOffset = 0) :
    ∃ l', ((v.setSlot i s).pushSlots g (ch i)).Chains g l' live (Function.update ch i []) ∧
      KeepsOthers g v ((v.setSlot i s).pushSlots g (ch i)) i (ch i) ∧
      ((v.setSlot i s).pushSlots g (ch i)).slots i = s := by
  have hused := (h.head i hi).2
  have hic : i ∉ ch i := h.not_mem_of_live hi
  have hpool : (v.setSlot i s).Pool g l [] := by
    refine h.toPool.setSlot (by rw [hused]; simp) (by rw [hs]; simp) ?_
    refine h.queue.off_of_status ?_ ?_ <;> rw [hused] <;> simp
  have hslots : ∀ j, j ≠ i → j ∉ ch i →
      ((v.setSlot i s).pushSlots g (ch i)).slots j = v.slots j := by
    intro j hji hjc
    rw [pushSlots_slots_of_not_mem hjc, setSlot_slots, Function.update_of_ne hji]
  have hself : ((v.setSlot i s).pushSlots g (ch i)).slots i = s := by
    rw [pushSlots_slots_of_not_mem hic, setSlot_slots, Function.update_self]
  have hpushed := hpool.pushSlots (h.nodup_chain hi) (fun j hj => h.lt_of_mem hj) fun j hj => by
    have hji : j ≠ i := fun heq => hic (heq ▸ hj)
    rw [setSlot_slots, Function.update_of_ne hji]
    exact (h.overflow i j hj).2
  refine ⟨_, ⟨hpushed, fun k hk => ?_, fun k hk => ?_, fun k j hj => ?_, fun k k' j hj hj' => ?_,
    fun j hj hst => ?_⟩, fun j _ _ hji hjc => hslots j hji hjc, hself⟩
  · by_cases hki : k = i
    · subst hki
      rw [hself]
      exact ⟨(h.head k hk).1, hs⟩
    · rw [hslots k hki (h.not_mem_of_live hk)]
      exact h.head k hk
  · by_cases hki : k = i
    · subst hki
      rw [hself, hn, Function.update_self]
      rfl
    · have hkeep : ∀ j ∈ ch k, ((v.setSlot i s).pushSlots g (ch i)).slots j = v.slots j := by
        intro j hj
        refine hslots j (fun heq => h.not_mem_of_live hi (heq ▸ hj)) fun hm => ?_
        exact hki (h.disjoint k i j hj hm)
      rw [hslots k hki (h.not_mem_of_live hk), Function.update_of_ne hki]
      exact (h.chain k hk).mono fun o b hb ho => ⟨ho, by rw [hkeep b hb]⟩
  · rw [Function.update_apply] at hj
    split_ifs at hj with hki
    · cases hj
    · rw [hslots j (fun heq => h.not_mem_of_live hi (heq ▸ hj)) fun hm => hki (h.disjoint k i j hj hm)]
      exact h.overflow k j hj
  · rw [Function.update_apply] at hj hj'
    split_ifs at hj hj' with hk hk'
    · cases hj
    · cases hj
    · cases hj'
    · exact h.disjoint k k' j hj hj'
  · by_cases hjc : j ∈ ch i
    · exact absurd (pushSlots_status_of_mem hjc) hst
    by_cases hji : j = i
    · exact .inl (hji ▸ hi)
    · rw [hslots j hji hjc] at hst
      refine (h.cover j hj hst).imp_right fun ⟨k, hk⟩ => ⟨k, ?_⟩
      have hki : k ≠ i := by
        rintro rfl
        exact hjc hk
      rw [Function.update_of_ne hki]
      exact hk

/-- A head without a chain is given back. -/
lemma dropHead (hi : live i) (hc : ch i = []) :
    (v.pushSlot g i).Chains g (i :: l) (fun j => j ≠ i ∧ live j) ch := by
  obtain ⟨hlt, hused⟩ := h.head i hi
  have hpool : (v.pushSlot g i).Pool g (i :: l) [] := by
    refine h.toPool.pushSlot hlt (by rw [hused]; simp) ?_
    refine h.queue.off_of_status ?_ ?_ <;> rw [hused] <;> simp
  have hmem : ∀ k j, j ∈ ch k → j ≠ i := fun k j hj heq => h.not_mem_of_live hi (heq ▸ hj)
  refine ⟨hpool, fun k hk => ?_, fun k hk => ?_, fun k j hj => ?_, h.disjoint, fun j hj hst => ?_⟩
  · rw [pushSlot_slots_of_ne hk.1]
    exact h.head k hk.2
  · rw [pushSlot_slots_of_ne hk.1]
    exact (h.chain k hk.2).mono fun o b hb ho => ⟨ho, by rw [pushSlot_slots_of_ne (hmem k b hb)]⟩
  · rw [pushSlot_slots_of_ne (hmem k j hj)]
    have hki : k ≠ i := by
      rintro rfl
      rw [hc] at hj
      cases hj
    exact ⟨⟨hki, (h.overflow k j hj).1⟩, (h.overflow k j hj).2⟩
  · by_cases hji : j = i
    · subst hji
      rw [pushSlot_slots_self] at hst
      exact absurd rfl hst
    · rw [pushSlot_slots_of_ne hji] at hst
      exact (h.cover j hj hst).imp_left fun hl => ⟨hji, hl⟩

end Chains

end View

end Endfields.Model
