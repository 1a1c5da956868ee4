import Endfields.Resize.Free

/-!
# How far a release comes

`ef_free_slot` on a database without a hash index. Each slot that it gives back takes the lock of
the index once, and the first attempt that fails ends the call.

* `Db.ChainEnds db i`: distinct overflow slots lead from slot `i` to the end of its chain.
* `Db.granted db n`: how many of the next `n` lock attempts are granted before one is not.
* `Db.releaseCount db i`: the number of slots that a release of slot `i` gives back, from the state
  before.
* `View.Chained g v off l z`: the distinct overflow slots `l` lead from an offset to `z`, where the
  chain ends or comes back to one of them.
-/

namespace Endfields.Model

open Endfields.Lib

namespace View

variable {g : Geometry} {v : View} {l : List ℕ} {off z i j : ℕ}

/-- The distinct overflow slots `l` lead from the offset `off` to `z`, and no further one
follows. -/
structure Chained (g : Geometry) (v : View) (off : ℕ) (l : List ℕ) (z : ℕ) : Prop where
  nodup : l.Nodup
  path : v.OverflowPath g off l z
  last : ∀ a, v.overflowAt g z = some a → a ∈ l

end View

namespace Db

variable {g : Geometry} {db db' : Db} {i j off : ℕ} {l : List ℕ}

/-! ### What a release does first -/

/-- The records of a release, inside a transaction. -/
def recordFree (db : Db) (i next status : ℕ) : Db :=
  if db.txnActive then
    ((db.efTxnRecordSlotFree i next status).2.efTxnRecordFreeCount 1).2
  else db

/-- **A release that is taken on**: the chain of a used slot is released, then the slot is recorded
and given back. -/
lemma efFreeSlot_of_accepts (h : (db.view g).Bound g) (hacc : db.freeAccepts i) :
    db.efFreeSlot i =
      match if ((db.view g).slots i).status = statusUsed then
          (db.setError .ok).efBlobReleaseChain i (g.ptr i) else (.ok, db.setError .ok) with
      | (.ok, db₁) => (db₁.recordFree i ((db.view g).slots i).nextOffset
          ((db.view g).slots i).status).efReturnSlotToPool i (g.ptr i)
      | (err, db₁) => (err, db₁.setError err) := by
  have hmax : db.sb.maxSlots = g.n := h.maxSlots
  have hi : i < g.n := hmax ▸ hacc.1
  unfold freeAccepts at hacc
  rw [slot_eq h.cap hi] at hacc
  obtain ⟨-, h1, h2, h3, h4⟩ := hacc
  have hslot : (db.setError .ok).slotAt (g.ptr i) = (db.view g).slots i := slotAt_eq db hi
  have hvalid : (db.setError .ok).efSlotHeaderCrcValid i ((db.view g).slots i) =
      db.efSlotHeaderCrcValid i ((db.view g).slots i) := rfl
  unfold efFreeSlot
  rw [efDbRequireWrite_eq h.writable]
  simp only
  rw [efPeekSlot_of_lt h hi]
  simp only [hslot, hvalid]
  rw [if_neg h1, if_neg h2, if_neg h3, if_neg h4]
  rfl

/-- Giving a slot back, in a database without an index: the lock of the index cannot be taken, or
the slot is on the list. -/
lemma efReturnSlotToPool_cases (h : (db.view g).Bound g) (hcap : g.cap = 0) (hi : i < g.n) :
    ((db.efReturnSlotToPool i (g.ptr i)).1 ≠ .ok ∧
        View.Still (db.view g) ((db.efReturnSlotToPool i (g.ptr i)).2.view g)) ∨
      ((db.efReturnSlotToPool i (g.ptr i)).1 = .ok ∧
        View.Still ((db.view g).pushSlot g i) ((db.efReturnSlotToPool i (g.ptr i)).2.view g)) := by
  obtain ⟨hfst, hsnd⟩ := efReturnSlotToPool_fst (g := g) h.writable i (g.ptr i)
  by_cases hok : (db.efReturnSlotToPool i (g.ptr i)).1 = .ok
  · have hstays := not_removalMoves_of_small h.cap (by omega) i
    exact .inr ⟨hok, (efReturnSlotToPool_spec h hi hstays hok).still⟩
  · rw [hfst] at hok
    obtain ⟨-, ⟨-, hstill, -⟩ | ⟨hbegin, -⟩⟩ := efIndexWriteBegin_spec g db
    · exact .inl ⟨by rw [hfst]; exact hok, by rw [hsnd hok]; exact hstill⟩
    · exact absurd hbegin hok

/-- The state in which the chain of a used slot is released. -/
lemma view_unlinked (hi : i < g.n) :
    ((db.setNext (g.ptr i) 0).efSlotHeaderCrcStore i (g.ptr i)).view g = (db.view g).setSlot i
      (Slot.sealed (db.view g).sb.slotCrc i { (db.view g).slots i with nextOffset := 0 }) := by
  rw [view_efSlotHeaderCrcStore hi, view_setNext hi]
  simp

/-! ### The chain of a slot -/

/-- Distinct overflow slots lead from slot `i` to the end of its chain. -/
def ChainEnds (db : Db) (i : ℕ) : Prop :=
  ∃ l : List ℕ, l.Nodup ∧
    Linked db.overflowAt (fun j => (db.slot j).nextOffset) (db.slot i).nextOffset l 0

lemma overflowAt_lt (ho : db.overflowAt off = some j) : j < db.sb.maxSlots := by
  unfold overflowAt efOffsetToSlotId at ho
  split_ifs at ho with h1 h2 h3
  simp only at ho
  split_ifs at ho with hst
  have hj := Option.some.inj ho
  omega

/-- The slots met along the links are those that lead to the end, if any do. -/
lemma chainEnds_iff_overflowChain : db.ChainEnds i ↔ (db.overflowChain i).Nodup ∧
    Linked db.overflowAt (fun j => (db.slot j).nextOffset) (db.slot i).nextOffset (db.overflowChain i)
      0 := by
  constructor
  · rintro ⟨l, hnd, hlink⟩
    have hnone : db.overflowAt 0 = none := by
      have hbase := db.slotsBase_ge
      unfold overflowAt efOffsetToSlotId
      rw [if_pos (by omega)]
    have hlen : l.length ≤ db.sb.maxSlots := by
      have hsub := hnd.subperm fun a ha => by
        obtain ⟨o, ho⟩ := hlink.exists_of_mem ha
        exact List.mem_range.mpr (overflowAt_lt ho)
      simpa using hsub.length_le
    have hwalk : db.overflowChain i = l := (hlink.chain hnone).walk_eq (by omega)
    rw [hwalk]
    exact ⟨hnd, hlink⟩
  · rintro ⟨hnd, hlink⟩
    exact ⟨_, hnd, hlink⟩

instance (db : Db) (i : ℕ) : Decidable (db.ChainEnds i) :=
  decidable_of_iff _ chainEnds_iff_overflowChain.symm

/-- The chain of a slot, in the view. -/
lemma chainEnds_iff (h : (db.view g).Bound g) (hi : i < g.n) : db.ChainEnds i ↔
    ∃ l : List ℕ, l.Nodup ∧
      View.OverflowPath g (db.view g) ((db.view g).slots i).nextOffset l 0 := by
  unfold ChainEnds View.OverflowPath
  rw [slot_eq h.cap hi]
  refine exists_congr fun l => and_congr_right fun _ => ⟨fun hl => ?_, fun hl => ?_⟩
  · refine hl.mono fun o a _ ha => ?_
    rw [overflowAt_eq h o] at ha
    have hlt := (View.overflowAt_eq_some_iff.mp ha).1
    exact ⟨ha, congrArg Slot.nextOffset (slot_eq h.cap hlt)⟩
  · refine hl.mono fun o a _ ha => ?_
    have hlt := (View.overflowAt_eq_some_iff.mp ha).1
    exact ⟨(overflowAt_eq h o).trans ha, congrArg Slot.nextOffset (slot_eq h.cap hlt).symm⟩

/-- The chain does not see the slot it hangs from. -/
lemma overflowPath_unlinked {v : View} {s : Slot} {z : ℕ} (hi : (v.slots i).status ≠ statusOverflow)
    (hpath : View.OverflowPath g v off l z) : View.OverflowPath g (v.setSlot i s) off l z := by
  refine Linked.mono hpath fun o a _ ha => ?_
  obtain ⟨hlt, hptr, hst⟩ := View.overflowAt_eq_some_iff.mp ha
  have hai : a ≠ i := by
    rintro rfl
    exact hi hst
  have hslot : (v.setSlot i s).slots a = v.slots a := by
    rw [View.setSlot_slots, Function.update_of_ne hai]
  rw [hslot]
  exact ⟨View.overflowAt_eq_some_iff.mpr ⟨hlt, hptr, by rw [hslot]; exact hst⟩, rfl⟩

/-- A path of distinct overflow slots is no longer than the release goes on. -/
lemma length_le_of_overflowPath {v : View} {z : ℕ} (hnd : l.Nodup)
    (hpath : View.OverflowPath g v off l z) : l.length ≤ g.n := by
  have hsub := hnd.subperm fun a ha => by
    obtain ⟨o, ho⟩ := hpath.exists_of_mem ha
    exact List.mem_range.mpr (View.overflowAt_eq_some_iff.mp ho).1
  simpa using hsub.length_le

end Db

namespace View

variable {g : Geometry} {v : View} {l : List ℕ} {off z i j : ℕ}

/-- Behind every slot of a chain comes another one of it, or its end. -/
lemma Chained.mem_of_next {a b : ℕ} (h : v.Chained g off l z) (hb : b ∈ l)
    (ha : v.overflowAt g (v.slots b).nextOffset = some a) : a ∈ l := by
  obtain ⟨s, t, rfl⟩ := List.append_of_mem hb
  obtain ⟨o, -, -, hrest⟩ := linked_append.mp h.path
  rcases t with _ | ⟨c, t⟩
  · have hend : (v.slots b).nextOffset = z := hrest
    rw [hend] at ha
    exact h.last a ha
  · have hc : v.overflowAt g (v.slots b).nextOffset = some c := hrest.1
    rw [hc] at ha
    obtain rfl := Option.some.inj ha
    simp

/-- The walk along the links stays on the chain. -/
lemma Chained.mem_of_walk (h : v.Chained g off l z) (k : ℕ) {o : ℕ}
    (ho : ∀ a, v.overflowAt g o = some a → a ∈ l)
    (hj : j ∈ walk (v.overflowAt g) (fun j => (v.slots j).nextOffset) k o) : j ∈ l := by
  induction k generalizing o with
  | zero => cases hj
  | succ k ih =>
      rw [walk] at hj
      rcases hres : v.overflowAt g o with _ | a
      · rw [hres] at hj
        cases hj
      rw [hres] at hj
      have ha := ho a hres
      rcases List.mem_cons.mp hj with rfl | hj
      · exact ha
      · exact ih (fun b hb => h.mem_of_next ha hb) hj

/-- The walk meets the slots of the chain, and no others. -/
lemma Chained.toFinset_walk (h : v.Chained g off l z) :
    (walk (v.overflowAt g) (fun j => (v.slots j).nextOffset) (g.n + 1) off).toFinset = l.toFinset := by
  have hlen := Db.length_le_of_overflowPath h.nodup h.path
  have hwalk := Linked.walk_eq h.path (g.n + 1 - l.length)
  rw [Nat.add_sub_cancel' (by omega)] at hwalk
  ext j
  rw [List.mem_toFinset, List.mem_toFinset]
  constructor
  · refine h.mem_of_walk _ fun a ha => ?_
    rcases l with _ | ⟨b, l⟩
    · have hend : off = z := h.path
      exact h.last a (hend ▸ ha)
    · have hb : v.overflowAt g off = some b := h.path.1
      rw [hb] at ha
      obtain rfl := Option.some.inj ha
      simp
  · intro hj
    rw [hwalk]
    exact List.mem_append_left _ hj

/-- Writing a slot that is no overflow slot and does not become one. -/
lemma Chained.setSlot {s : Slot} (h : v.Chained g off l z) (hi : (v.slots i).status ≠ statusOverflow)
    (hs : s.status ≠ statusOverflow) : (v.setSlot i s).Chained g off l z where
  nodup := h.nodup
  path := Db.overflowPath_unlinked hi h.path
  last a ha := by
    obtain ⟨hlt, hptr, hst⟩ := overflowAt_eq_some_iff.mp ha
    have hai : a ≠ i := by
      rintro rfl
      rw [setSlot_slots, Function.update_self] at hst
      exact hs hst
    rw [setSlot_slots, Function.update_of_ne hai] at hst
    exact h.last a (overflowAt_eq_some_iff.mpr ⟨hlt, hptr, hst⟩)

/-- From every offset leads a chain. -/
lemma exists_chained (g : Geometry) (v : View) (off : ℕ) : ∃ l z, v.Chained g off l z := by
  -- a path that can be made longer has room for another slot
  have hgrow : ∀ k (l : List ℕ) (z : ℕ), g.n ≤ l.length + k → l.Nodup → v.OverflowPath g off l z →
      ∃ l z, v.Chained g off l z := by
    intro k
    induction k with
    | zero =>
        intro l z hk hnd hpath
        refine ⟨l, z, hnd, hpath, fun a ha => ?_⟩
        by_contra hal
        have hlonger := Db.length_le_of_overflowPath (l := l ++ [a]) (z := (v.slots a).nextOffset) (by
          rw [List.nodup_append_comm]
          exact List.nodup_cons.mpr ⟨hal, hnd⟩) (linked_append.mpr ⟨z, hpath, ha, rfl⟩)
        rw [List.length_append, List.length_singleton] at hlonger
        omega
    | succ k ih =>
        intro l z hk hnd hpath
        by_cases hlast : ∀ a, v.overflowAt g z = some a → a ∈ l
        · exact ⟨l, z, hnd, hpath, hlast⟩
        push Not at hlast
        obtain ⟨a, ha, hal⟩ := hlast
        refine ih (l ++ [a]) (v.slots a).nextOffset ?_ ?_ (linked_append.mpr ⟨z, hpath, ha, rfl⟩)
        · rw [List.length_append, List.length_singleton]
          omega
        · rw [List.nodup_append_comm]
          exact List.nodup_cons.mpr ⟨hal, hnd⟩
  exact hgrow g.n [] off (by simp) List.nodup_nil rfl

/-- A path to the end of a chain begins with every other path from where it starts. -/
lemma split_overflowPath {l' : List ℕ} (h : v.OverflowPath g off l z) (h' : v.OverflowPath g off l' 0) :
    ∃ t, l' = l ++ t ∧ v.OverflowPath g z t 0 := by
  induction l generalizing off l' with
  | nil =>
      have hend : off = z := h
      exact ⟨l', rfl, hend ▸ h'⟩
  | cons a l ih =>
      obtain ⟨ha, hlink⟩ := h
      rcases l' with _ | ⟨b, l'⟩
      · have h0 : off = 0 := h'
        rw [h0, overflowAt_zero] at ha
        cases ha
      obtain ⟨hb, hlink'⟩ := h'
      obtain rfl : a = b := Option.some.inj (ha.symm.trans hb)
      obtain ⟨t, rfl, ht⟩ := ih hlink hlink'
      exact ⟨t, rfl, ht⟩

end View

namespace Db

variable {g : Geometry} {db db' : Db} {i j off : ℕ} {l : List ℕ}

/-- The overflow slots that a slot's links lead to, with the end of the chain. -/
lemma overflowChain_of_chained (h : (db.view g).Bound g) (hi : i < g.n) {z : ℕ}
    (hc : (db.view g).Chained g ((db.view g).slots i).nextOffset l z) :
    (db.overflowChain i).toFinset.card = l.length ∧ (db.ChainEnds i ↔ z = 0) := by
  constructor
  · rw [overflowChain_eq h hi, hc.toFinset_walk, List.toFinset_card_of_nodup hc.nodup]
  · rw [chainEnds_iff h hi]
    constructor
    · rintro ⟨l', hnd, hpath⟩
      obtain ⟨t, rfl, ht⟩ := View.split_overflowPath hc.path hpath
      rcases t with _ | ⟨a, t⟩
      · exact ht
      -- another slot would come twice
      · have hal := hc.last a ht.1
        exact absurd (List.mem_cons_self) ((List.nodup_append.mp hnd).2.2 a hal a · rfl)
    · rintro rfl
      exact ⟨l, hc.nodup, hc.path⟩

/-! ### The lock attempts of a release -/

/-- The lock of the index is granted at the `k`-th of the attempts to come. Before schema v5 there
is no lock.
Source: `ef_index.c`, `ef_index_write_begin` -/
def lockGrants (db : Db) (k : ℕ) : Prop :=
  db.sb.schemaVersion < schemaVersion ∨
    db.sb.indexWriteLock = 0 ∧ db.env.contention[k]?.getD false = false

instance (db : Db) (k : ℕ) : Decidable (db.lockGrants k) := inferInstanceAs (Decidable (_ ∨ _))

/-- The number of the next `n` attempts that are granted before one is not. -/
def granted (db : Db) (n : ℕ) : ℕ := ((List.range n).takeWhile fun k => db.lockGrants k).length

/-- Once the first attempt is granted, the others come one place earlier. -/
lemma granted_succ (h0 : db.lockGrants 0) (h : ∀ k, db'.lockGrants k ↔ db.lockGrants (k + 1)) (n : ℕ) :
    db.granted (n + 1) = db'.granted n + 1 := by
  unfold granted
  rw [List.range_succ_eq_map, List.takeWhile_cons, if_pos (decide_eq_true h0), List.takeWhile_map,
    List.length_cons, List.length_map]
  simp only [Function.comp_def, Nat.succ_eq_add_one, h]

lemma granted_of_not (h0 : ¬ db.lockGrants 0) (n : ℕ) : db.granted n = 0 := by
  unfold granted
  rcases n with _ | n
  · rfl
  · rw [List.range_succ_eq_map, List.takeWhile_cons, if_neg (by simpa using h0), List.length_nil]

lemma granted_one (h0 : db.lockGrants 0) : db.granted 1 = 1 := by
  unfold granted
  rw [List.range_one, List.takeWhile_cons, if_pos (decide_eq_true h0)]
  rfl

/-- The write section of the index is entered exactly if the next attempt is granted. -/
lemma efIndexWriteBegin_ok_iff_grants : db.efIndexWriteBegin.1 = .ok ↔ db.lockGrants 0 := by
  have hnext : db.contended.1 = db.env.contention[0]?.getD false := by
    unfold contended
    rcases db.env.contention with _ | ⟨c, cs⟩ <;> rfl
  rw [efIndexWriteBegin_ok_iff]
  unfold lockGrants indexLockBusy
  rw [hnext, not_or, not_not, Bool.not_eq_true, and_comm, ← not_lt, imp_iff_or_not, not_not, or_comm]

/-- The grants depend on the layout, the lock and the answers of the environment. -/
lemma lockGrants_congr {k k' : ℕ} (hs : db'.sb.schemaVersion = db.sb.schemaVersion)
    (hl : db'.sb.indexWriteLock = db.sb.indexWriteLock)
    (hc : db'.env.contention[k]?.getD false = db.env.contention[k']?.getD false) :
    db'.lockGrants k ↔ db.lockGrants k' := by
  unfold lockGrants
  rw [hs, hl, hc]

lemma granted_congr (hs : db'.sb.schemaVersion = db.sb.schemaVersion)
    (hl : db'.sb.indexWriteLock = db.sb.indexWriteLock) (henv : db'.env = db.env) (n : ℕ) :
    db'.granted n = db.granted n := by
  have hk : ∀ k, db'.lockGrants k ↔ db.lockGrants k := fun k => lockGrants_congr hs hl (by rw [henv])
  unfold granted
  simp only [hk]

/-- A slot is given back exactly if the next attempt is granted. -/
lemma efReturnSlotToPool_ok_iff_grants (hw : db.readonly = false) (i p : ℕ) :
    (db.efReturnSlotToPool i p).1 = .ok ↔ db.lockGrants 0 := by
  rw [(efReturnSlotToPool_fst (g := ⟨0, 0, by norm_num [u64]⟩) hw i p).1,
    efIndexWriteBegin_ok_iff_grants]

/-- **After a slot was given back**, the attempts to come are those after the first. -/
lemma lockGrants_efReturnSlotToPool (h : (db.view g).Bound g) (hcap : g.cap = 0) (hi : i < g.n)
    (hok : (db.efReturnSlotToPool i (g.ptr i)).1 = .ok) (k : ℕ) :
    (db.efReturnSlotToPool i (g.ptr i)).2.lockGrants k ↔ db.lockGrants (k + 1) := by
  have hfreed := efReturnSlotToPool_spec h hi (not_removalMoves_of_small h.cap (by omega) i) hok
  generalize (db.efReturnSlotToPool i (g.ptr i)).2 = db₁ at hfreed
  have hsb : db₁.sb = ((db.view g).pushSlot g i).sb := hfreed.still.sb
  have hschema : db₁.sb.schemaVersion = db.sb.schemaVersion := by
    rw [hsb]
    rfl
  have hlock : db₁.sb.indexWriteLock = db.sb.indexWriteLock := by
    rw [hsb]
    rfl
  -- without a table the removal uses up one answer, and there is nothing to shrink
  have henv : db₁.env = db.indexAttempt.2.env := by
    have hcap₁ : db.indexAttempt.2.hashCapacity = 0 := by
      rw [hashCapacity_indexAttempt]
      exact h.cap.trans hcap
    have htake : db.indexAttempt.2.takeEntry i = db.indexAttempt.2 := by
      unfold takeEntry
      rw [hcap₁]
      rfl
    rw [hfreed.table.env, afterRemovals_singleton]
    unfold afterRemoval afterShrink
    rw [htake, if_pos (shrinkTarget_of_small (by omega))]
  unfold indexAttempt at henv
  by_cases hold : db.sb.schemaVersion < schemaVersion
  · exact iff_of_true (.inl (hschema ▸ hold)) (.inl hold)
  rw [if_neg hold] at henv
  have htail : db.contended.2.env.contention = db.env.contention.tail := by
    unfold contended
    split <;> next hc => rw [hc]; rfl
  refine lockGrants_congr hschema hlock ?_
  rw [henv, htail, List.getElem?_tail]

/-- **The number of slots that a release of slot `i` gives back**, read off the state before: the
overflow slots chained from a used slot, and then, if their chain comes to its end, the slot, as far
as the lock is granted for one after the other.
Source: `endfields.c`, `ef_free_slot`; `ef_blob.c`, `ef_blob_release_chain` -/
def releaseCount (db : Db) (i : ℕ) : ℕ :=
  if db.freeAccepts i then
    if (db.slot i).status = statusUsed then
      db.granted ((db.overflowChain i).toFinset.card + if db.ChainEnds i then 1 else 0)
    else db.granted 1
  else 0

end Db

end Endfields.Model
