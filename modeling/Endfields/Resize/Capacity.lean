import Mathlib.Order.Bounds.Basic
import Endfields.Spec.Moves
import Endfields.Spec.Open
import Endfields.Spec.Put

/-!
# Choosing a capacity

Two functions choose the capacity of a resized table: `ef_index_pick_capacity` doubles until the
entries fit, `ef_index_pick_shrink_capacity` rounds the needed buckets up to a power of two. Each
has a second place that judges its choice: the limit of `ef_index_rehash_to` on capacities, and its
load check.

* `GrowTarget`: what a grown capacity is for.
* **`Db.efIndexPickCapacity_right_iff`**: the growth target is the least right one, except at the
  top capacity, whose double is no capacity; an insertion there fails with `EF_ERR_GROW`.
* `ShrinkFits`: the load check (`Db.Shrinkable.efIndexShrink_grow_iff`).
* **`Db.efIndexPickShrinkCapacity_accepted_iff`**: the shrink target passes the load check, except
  for the entry counts `12 * 2 ^ i`, which fill three quarters of a power of two exactly.
-/

namespace Endfields.Model

open Endfields.Lib

variable {e c k : ℕ}

/-! ### Powers of two -/

/-- A valid capacity of an index is a power of two below `2 ^ 16`. -/
lemma exists_pow_of_valid (hpos : 0 < c) (hvalid : efHashCapacityValid c = true) :
    ∃ k, k ≤ 15 ∧ c = 2 ^ k := by
  have hpow : c &&& (c - 1) = 0 := Db.efHashCapacityValid_pow hvalid
  have hle : c ≤ 0xFFFF := Db.efHashCapacityValid_le hvalid
  obtain ⟨k, rfl⟩ := (Nat.and_sub_one_eq_zero_iff_isPowerOfTwo (by omega)).1 hpow
  refine ⟨k, ?_, rfl⟩
  by_contra hk
  have h16 : 2 ^ 16 ≤ 2 ^ k := Nat.pow_le_pow_right (by norm_num) (by omega)
  omega

lemma pow_and_pred (k : ℕ) : 2 ^ k &&& (2 ^ k - 1) = 0 :=
  (Nat.and_sub_one_eq_zero_iff_isPowerOfTwo (by positivity)).2 ⟨k, rfl⟩

/-- Doubling stays a 32-bit word up to the last power of two. -/
lemma pow_mul_two_mod (hk : k < 31) : 2 ^ k * 2 % u32 = 2 ^ (k + 1) := by
  rw [← pow_succ]
  apply Nat.mod_eq_of_lt
  calc 2 ^ (k + 1) ≤ 2 ^ 31 := Nat.pow_le_pow_right (by norm_num) (by omega)
    _ < u32 := by norm_num [u32]

/-! ### Growing -/

/-- A capacity that a table can grow to: a power of two from the smallest capacity and `minCapacity`
on, within the limit of the index, that holds `entries` entries at a load of three quarters.
Source: `ef_index.h`, `EF_INDEX_MAX_CAPACITY`; `ef_config.h`, `EF_DEFAULT_HASH_MIN` -/
structure GrowTarget (entries minCapacity t : ℕ) : Prop where
  pow : ∃ j, t = 2 ^ j
  default_le : 16 ≤ t
  min_le : minCapacity ≤ t
  le_max : t ≤ 0xFFFF
  holds : entries * 4 ≤ t * 3

/-- The choice is right: the least target, or `0` if there is none. -/
structure PicksTarget (entries minCapacity r : ℕ) : Prop where
  least : r ≠ 0 → IsLeast {t | GrowTarget entries minCapacity t} r
  zero_iff : r = 0 ↔ ∀ t, ¬ GrowTarget entries minCapacity t

/-- The doubling loop, started at a capacity within the limit, finds the first one that holds the
entries. -/
lemma pickCapacityLoop_spec (fuel : ℕ) (hk : k ≤ 15) (hfuel : 16 < fuel + k) :
    (∃ j, k ≤ j ∧ j ≤ 15 ∧ pickCapacityLoop e fuel (2 ^ k) = 2 ^ j ∧ e * 4 ≤ 2 ^ j * 3 ∧
      ∀ i, k ≤ i → i < j → 2 ^ i * 3 < e * 4) ∨
    (pickCapacityLoop e fuel (2 ^ k) = 0 ∧ ∀ i, k ≤ i → i ≤ 15 → 2 ^ i * 3 < e * 4) := by
  induction fuel generalizing k with
  | zero => omega
  | succ fuel ih =>
      unfold pickCapacityLoop
      by_cases hfull : 2 ^ k * 3 / 4 < e
      swap
      · rw [if_neg hfull]
        exact .inl ⟨k, le_rfl, hk, rfl, by omega, fun i hi hi' => by omega⟩
      rw [if_pos hfull]
      have hfull' : 2 ^ k * 3 < e * 4 := by omega
      by_cases htop : k = 15
      · rw [if_pos (by rw [htop]; decide)]
        refine .inr ⟨rfl, ?_⟩
        intro i hi hi'
        obtain rfl : i = k := by omega
        exact hfull'
      · have hle : 2 ^ k ≤ 2 ^ 14 := Nat.pow_le_pow_right (by norm_num) (by omega)
        rw [if_neg (show ¬ 0xFFFF >>> 1 < 2 ^ k by rw [Nat.not_lt]; exact hle.trans (by decide)),
          pow_mul_two_mod (by omega)]
        rcases ih (k := k + 1) (by omega) (by omega) with ⟨j, hj, hj', heq, hfits, hless⟩ | ⟨heq, hless⟩
        · refine .inl ⟨j, by omega, hj', heq, hfits, ?_⟩
          intro i hi hi'
          rcases Nat.eq_or_lt_of_le hi with rfl | hlt
          · exact hfull'
          · exact hless i hlt hi'
        · refine .inr ⟨heq, ?_⟩
          intro i hi hi'
          rcases Nat.eq_or_lt_of_le hi with rfl | hlt
          · exact hfull'
          · exact hless i hlt hi'

/-- The targets from `2 ^ k` on. -/
lemma growTarget_iff {m t : ℕ} (hm : ∀ t, 2 ^ k ≤ t ↔ 16 ≤ t ∧ m ≤ t) :
    GrowTarget e m t ↔ ∃ j, k ≤ j ∧ j ≤ 15 ∧ t = 2 ^ j ∧ e * 4 ≤ 2 ^ j * 3 := by
  refine ⟨?_, ?_⟩
  · rintro ⟨⟨j, rfl⟩, h16, hmin, hmax, hholds⟩
    have hkj : 2 ^ k ≤ 2 ^ j := (hm _).2 ⟨h16, hmin⟩
    refine ⟨j, (Nat.pow_le_pow_iff_right (by norm_num)).1 hkj, ?_, rfl, hholds⟩
    by_contra hj
    have hbig : 2 ^ 16 ≤ 2 ^ j := Nat.pow_le_pow_right (by norm_num) (by omega)
    omega
  · rintro ⟨j, hkj, hj, rfl, hholds⟩
    obtain ⟨h16, hmin⟩ := (hm _).1 (Nat.pow_le_pow_right (by norm_num) hkj : 2 ^ k ≤ 2 ^ j)
    have hle : 2 ^ j ≤ 2 ^ 15 := Nat.pow_le_pow_right (by norm_num) hj
    exact ⟨⟨j, rfl⟩, h16, hmin, hle.trans (by norm_num), hholds⟩

/-- What the function returns from a start within the limit. -/
lemma picksTarget_of_loop {m : ℕ} (hm : ∀ t, 2 ^ k ≤ t ↔ 16 ≤ t ∧ m ≤ t) (hk : k ≤ 15) :
    PicksTarget e m (pickCapacityLoop e 32 (2 ^ k)) := by
  rcases pickCapacityLoop_spec (e := e) 32 hk (by omega) with ⟨j, hj, hj', heq, hfits, hless⟩ |
      ⟨heq, hless⟩
  · have htarget : GrowTarget e m (2 ^ j) := (growTarget_iff hm).2 ⟨j, hj, hj', rfl, hfits⟩
    rw [heq]
    refine ⟨fun _ => ⟨htarget, ?_⟩, ⟨fun h0 => ?_, fun hnone => absurd htarget (hnone _)⟩⟩
    · intro t ht
      obtain ⟨i, hi, -, rfl, hholds⟩ := (growTarget_iff hm).1 ht
      refine Nat.pow_le_pow_right (by norm_num) ?_
      by_contra hij
      have hlt := hless i hi (by omega)
      omega
    · exact absurd h0 (by positivity)
  · rw [heq]
    refine ⟨fun h0 => absurd rfl h0, ⟨fun _ t ht => ?_, fun _ => rfl⟩⟩
    obtain ⟨i, hi, hi', rfl, hholds⟩ := (growTarget_iff hm).1 ht
    have hlt := hless i hi hi'
    omega

/-- More entries than the largest capacity holds have no target. -/
lemma not_growTarget_of_lt {m : ℕ} (he : 49151 < e) (t : ℕ) : ¬ GrowTarget e m t := by
  intro ht
  have hmax := ht.le_max
  have hholds := ht.holds
  omega

/-- **The choice of the growth target**, for the double of a capacity: right, except at the top. -/
lemma picksTarget_iff (hk : k ≤ 15) :
    PicksTarget e (2 * 2 ^ k) (efIndexPickCapacity e (2 * 2 ^ k)) ↔ 2 ^ k ≤ 16384 ∨ 49151 < e := by
  unfold efIndexPickCapacity
  simp only
  by_cases he : 0xFFFF * 3 / 4 < e
  · rw [if_pos he]
    refine ⟨fun _ => .inr he, fun _ => ⟨fun h0 => absurd rfl h0, ?_⟩⟩
    exact ⟨fun _ => not_growTarget_of_lt he, fun _ => rfl⟩
  rw [if_neg he]
  have he' : e ≤ 49151 := by omega
  by_cases htop : k = 15
  · subst htop
    have hloop : pickCapacityLoop e 32 65536 = 65536 := by
      unfold pickCapacityLoop
      rw [if_neg (by omega)]
    rw [if_neg (by norm_num), show 2 * 2 ^ 15 = 65536 from rfl, hloop]
    refine ⟨fun h => ?_, fun h => by omega⟩
    have hmax := (h.least (by norm_num)).1.le_max
    exact absurd hmax (by norm_num)
  have hle : 2 ^ k ≤ 2 ^ 14 := Nat.pow_le_pow_right (by norm_num) (by omega)
  refine ⟨fun _ => .inl hle, fun _ => ?_⟩
  by_cases hlow : 2 * 2 ^ k < 16
  · rw [if_pos hlow]
    refine picksTarget_of_loop (k := 4) ?_ (by norm_num)
    intro t
    omega
  · rw [if_neg hlow, show 2 * 2 ^ k = 2 ^ (k + 1) by rw [pow_succ]; ring]
    rw [show 2 * 2 ^ k = 2 ^ (k + 1) by rw [pow_succ]; ring] at hlow
    refine picksTarget_of_loop ?_ (by omega)
    intro t
    omega

namespace Db

/-- An insertion into the handle has to grow a table of capacity `c` before its entries are
`entries`: the key is new, and nobody holds the write lock. -/
structure GrowsFor (db : Db) (key : List UInt8) (slotId entries c : ℕ) : Prop where
  writable : db.readonly = false
  idle : db.txnActive = false
  capacity : db.hashCapacity = c
  pos : 0 < c
  count : db.hashEntryCount + 1 = entries
  needsGrow : efIndexNeedsGrow db.hashEntryCount db.hashCapacity = true
  absent : (db.efIndexFindEntryUnlocked (efKeyHash (cString key))).toOption.isNone = true
  slot : db.efSlotToOffset slotId ≠ 0
  unlocked : schemaVersion ≤ db.sb.schemaVersion → db.sb.indexWriteLock = 0
  quiet : db.env.contention = []

variable {db : Db} {key : List UInt8} {slotId entries : ℕ}

/-- What is left of the handle after a write section in which nothing is written. -/
lemma section_empty (g : Geometry) (hfree : (db.view g).lockFree) (hquiet : db.env.contention = []) :
    db.efIndexWriteBegin.1 = .ok ∧ db.efIndexWriteBegin.2.index = db.index ∧
      db.efIndexWriteBegin.2.efIndexWriteEnd.view g = db.view g ∧
        db.efIndexWriteBegin.2.efIndexWriteEnd.index = db.index := by
  obtain ⟨hix, ⟨-, -, hbusy⟩ | ⟨hok, -, w, hstill, hview⟩⟩ := efIndexWriteBegin_spec g db
  · exact absurd hquiet (hbusy hfree)
  · refine ⟨hok, hix, ?_, (efIndexWriteEnd_spec g _).2.trans hix⟩
    have hsame := section_still hfree hstill hview
    exact hsame.eq hquiet

/-- Growing before an insertion: the target decides. -/
lemma efIndexGrowForInsert_eq (g : Geometry) (hfree : (db.view g).lockFree)
    (hquiet : db.env.contention = []) (hpos : 0 < db.hashCapacity) :
    db.efIndexGrowForInsert.1 =
      let target := efIndexPickCapacity ((db.hashEntryCount + 1) % u32) (db.hashCapacity * 2 % u32)
      if target = 0 ∨ target ≤ db.hashCapacity then .indexFull
      else (db.efIndexWriteBegin.2.efIndexWriteEnd.efIndexRehash target).1 := by
  obtain ⟨hok, hix, -, -⟩ := section_empty g hfree hquiet
  have hcap : db.efIndexWriteBegin.2.hashCapacity = db.hashCapacity := congrArg Index.cap hix
  have hcount : db.efIndexWriteBegin.2.hashEntryCount = db.hashEntryCount := congrArg Index.count hix
  unfold efIndexGrowForInsert
  generalize db.efIndexWriteBegin = r at hok hcap hcount ⊢
  obtain ⟨err, db₁⟩ := r
  simp only at hok hcap hcount
  subst hok
  simp only
  rw [hcap, hcount, if_neg (by omega)]
  split_ifs <;> rfl

/-- The insertion returns what the growth returns. -/
lemma GrowsFor.efIndexPut_fst (h : db.GrowsFor key slotId entries c) {err : Err} (herr : err ≠ .ok)
    (hgrow : db.efIndexWriteBegin.2.efIndexWriteEnd.efIndexGrowForInsert.1 = err) :
    (db.efIndexPut key slotId).1 = err := by
  let g : Geometry := ⟨0, 0, by norm_num [u64]⟩
  obtain ⟨hok, hix, -, -⟩ := section_empty g h.unlocked h.quiet
  have hcap : db.efIndexWriteBegin.2.hashCapacity = db.hashCapacity := congrArg Index.cap hix
  have hcount : db.efIndexWriteBegin.2.hashEntryCount = db.hashEntryCount := congrArg Index.count hix
  have hoff : db.efIndexWriteBegin.2.efSlotToOffset slotId = db.efSlotToOffset slotId :=
    efSlotToOffset_efIndexWriteBegin db slotId
  have hfind := efIndexFindEntryUnlocked_of_index hix (efKeyHash (cString key))
  unfold efIndexPut indexPutAt
  simp only
  rw [if_neg (by rw [h.writable]; decide), if_neg (by rw [h.idle]; simp)]
  generalize db.efIndexWriteBegin = r at hok hcap hcount hoff hfind hgrow ⊢
  obtain ⟨e₁, db₁⟩ := r
  simp only at hok hcap hcount hoff hfind hgrow
  subst hok
  simp only
  have hneeds : db₁.hashCapacity ≠ 0 ∧
      efIndexNeedsGrow db₁.hashEntryCount db₁.hashCapacity = true ∧
        (db₁.efIndexFindEntryUnlocked (efKeyHash (cString key))).toOption.isNone = true := by
    rw [hcap, hcount, hfind]
    exact ⟨by rw [h.capacity]; exact h.pos.ne', h.needsGrow, h.absent⟩
  rw [if_neg (by rw [hoff]; exact h.slot), if_pos hneeds]
  generalize db₁.efIndexWriteEnd.efIndexGrowForInsert = r at hgrow ⊢
  obtain ⟨e₂, db₂⟩ := r
  simp only at hgrow
  subst hgrow
  cases e₂ with
  | ok => exact absurd rfl herr
  | _ => rfl

/-- An insertion that has to grow the table asks for the target of one entry more and twice the
capacity. -/
lemma GrowsFor.grow_fst (h : db.GrowsFor key slotId entries c) (he : entries < u32) (hc : c ≤ 0xFFFF) :
    db.efIndexWriteBegin.2.efIndexWriteEnd.efIndexGrowForInsert.1 =
      let target := efIndexPickCapacity entries (2 * c)
      let db₁ := db.efIndexWriteBegin.2.efIndexWriteEnd
      if target = 0 ∨ target ≤ c then .indexFull
      else (db₁.efIndexWriteBegin.2.efIndexWriteEnd.efIndexRehash target).1 := by
  let g : Geometry := ⟨0, 0, by norm_num [u64]⟩
  obtain ⟨-, -, hview, hix⟩ := section_empty g h.unlocked h.quiet
  simp only
  generalize db.efIndexWriteBegin.2.efIndexWriteEnd = db₁ at hview hix ⊢
  have hcap : db₁.hashCapacity = c := (congrArg Index.cap hix).trans h.capacity
  have hcount : db₁.hashEntryCount = db.hashEntryCount := congrArg Index.count hix
  have hfree : (db₁.view g).lockFree := by
    rw [hview]
    exact h.unlocked
  have hquiet : db₁.env.contention = [] := (congrArg (fun v => v.core.contention) hview).trans h.quiet
  have hdouble : c * 2 % u32 = 2 * c := by
    rw [Nat.mul_comm]
    apply Nat.mod_eq_of_lt
    simp only [u32]
    omega
  rw [efIndexGrowForInsert_eq g hfree hquiet (by rw [hcap]; exact h.pos), hcap, hcount, h.count,
    Nat.mod_eq_of_lt he, hdouble]

/-- A target that no capacity meets is reported as a full index. -/
lemma GrowsFor.efIndexPut_full (h : db.GrowsFor key slotId entries c) (he : entries < u32)
    (hc : c ≤ 0xFFFF) (hzero : efIndexPickCapacity entries (2 * c) = 0) :
    (db.efIndexPut key slotId).1 = .indexFull := by
  refine h.efIndexPut_fst (by decide) ?_
  rw [h.grow_fst he hc]
  simp only
  rw [if_pos (.inl hzero)]

/-- At the top capacity the insertion fails with another error. -/
lemma GrowsFor.efIndexPut_top (h : db.GrowsFor key slotId entries 32768) (he : entries ≤ 49151) :
    (db.efIndexPut key slotId).1 = .grow := by
  let g : Geometry := ⟨0, 0, by norm_num [u64]⟩
  have htarget : efIndexPickCapacity entries (2 * 32768) = 65536 := by
    unfold efIndexPickCapacity
    simp only
    rw [if_neg (by omega), if_neg (by norm_num)]
    unfold pickCapacityLoop
    rw [if_neg (by omega)]
  obtain ⟨-, -, hview, -⟩ := section_empty g h.unlocked h.quiet
  refine h.efIndexPut_fst (by decide) ?_
  rw [h.grow_fst (by simp only [u32]; omega) (by norm_num)]
  simp only
  rw [htarget, if_neg (by norm_num)]
  generalize db.efIndexWriteBegin.2.efIndexWriteEnd = db₁ at hview ⊢
  have hw : db₁.readonly = false := (congrArg (fun v => v.core.readonly) hview).trans h.writable
  have hw' : db₁.efIndexWriteBegin.2.efIndexWriteEnd.readonly = false :=
    ((frame_efIndexWriteEnd _).readonly.trans (frame_efIndexWriteBegin _).readonly).trans hw
  generalize db₁.efIndexWriteBegin.2.efIndexWriteEnd = db₂ at hw' ⊢
  unfold efIndexRehash efIndexRehashTo
  rw [if_neg (by rw [hw']; decide), if_neg (by decide), if_pos (by decide)]

/-- **The growth target is right below the top capacity.** For every entry count and every capacity:
the choice is the least target or says that there is none, and an insertion into a table that cannot
grow says that the index is full. -/
theorem efIndexPickCapacity_right_iff (he : e < u32) (hpos : 0 < c)
    (hvalid : efHashCapacityValid c = true) :
    (PicksTarget e (2 * c) (efIndexPickCapacity e (2 * c)) ∧
      ∀ (db : Db) (key : List UInt8) (slotId : ℕ), db.GrowsFor key slotId e c →
        (∀ t, ¬ GrowTarget e (2 * c) t) → (db.efIndexPut key slotId).1 = .indexFull) ↔
      c ≤ 16384 ∨ 49151 < e := by
  obtain ⟨k, hk, rfl⟩ := exists_pow_of_valid hpos hvalid
  rw [← picksTarget_iff hk]
  refine ⟨fun h => h.1, fun h => ⟨h, ?_⟩⟩
  intro db key slotId hgrows hnone
  exact hgrows.efIndexPut_full he (efHashCapacityValid_le hvalid) (h.zero_iff.2 hnone)

/-- A table of 24575 entries at the largest capacity but one does not come to growing: the target of
one entry more is the largest capacity. -/
theorem efIndexPickCapacity_right_of_half :
    (PicksTarget 24576 (2 * 16384) (efIndexPickCapacity 24576 (2 * 16384)) ∧
      ∀ (db : Db) (key : List UInt8) (slotId : ℕ), db.GrowsFor key slotId 24576 16384 →
        (∀ t, ¬ GrowTarget 24576 (2 * 16384) t) → (db.efIndexPut key slotId).1 = .indexFull) ↔
      16384 ≤ 16384 ∨ 49151 < 24576 :=
  efIndexPickCapacity_right_iff (by decide) (by decide) (by decide)

/-- At the top capacity, with three quarters of the buckets in use: the target is no capacity. -/
theorem efIndexPickCapacity_exceeds_max :
    efHashCapacityValid 32768 = true ∧ efIndexPickCapacity 24577 (2 * 32768) = 65536 ∧
      ¬ PicksTarget 24577 (2 * 32768) (efIndexPickCapacity 24577 (2 * 32768)) := by
  have htarget : efIndexPickCapacity 24577 (2 * 32768) = 65536 := by decide
  refine ⟨by decide, htarget, ?_⟩
  intro h
  rw [htarget] at h
  exact absurd (h.least (by decide)).1.le_max (by decide)

end Db

/-! ### Shrinking -/

/-- The load check of a shrink to capacity `t`: the entries fill less than three quarters.
Source: `ef_index.c`, `ef_index_rehash_to` -/
def ShrinkFits (entries t : ℕ) : Prop := entries = 0 ∨ entries * 4 < t * 3

/-- The rounding loop finds the first power of two that is large enough. -/
lemma roundUpLoop_spec {m : ℕ} (fuel : ℕ) (hm : m ≤ 2 ^ 31) (hk : k ≤ 31) (hfuel : 31 < fuel + k) :
    ∃ j, k ≤ j ∧ roundUpLoop m fuel (2 ^ k) = 2 ^ j ∧ m ≤ 2 ^ j ∧ (k < j → 2 ^ j < 2 * m) := by
  induction fuel generalizing k with
  | zero => omega
  | succ fuel ih =>
      unfold roundUpLoop
      by_cases hlt : 2 ^ k < m
      swap
      · rw [if_neg hlt]
        exact ⟨k, le_rfl, rfl, by omega, fun h => by omega⟩
      have hk31 : k < 31 := by
        by_contra hge
        obtain rfl : k = 31 := by omega
        omega
      rw [if_pos hlt, pow_mul_two_mod hk31]
      obtain ⟨j, hj, heq, hle, hless⟩ := ih (k := k + 1) (by omega) (by omega)
      refine ⟨j, by omega, heq, hle, fun _ => ?_⟩
      rcases Nat.eq_or_lt_of_le hj with rfl | hlt'
      · rw [pow_succ]
        omega
      · exact hless hlt'

/-- A capacity that is large enough is not halved again. -/
lemma shrinkLoop_pow {j : ℕ} (fuel : ℕ) (hj : 4 ≤ j) (he : e ≤ 2 ^ j * 8) :
    shrinkLoop e (fuel + 1) (2 ^ j) = 2 ^ j := by
  unfold shrinkLoop
  rcases Nat.eq_or_lt_of_le hj with rfl | hlt
  · rw [if_neg (by norm_num)]
    norm_num
  · have h16 : 2 ^ 5 ≤ 2 ^ j := Nat.pow_le_pow_right (by norm_num) hlt
    rw [if_pos (by omega)]
    by_cases h0 : e = 0
    · rw [if_pos h0]
    · rw [if_neg h0, if_pos he]

/-- The buckets that `entries` entries need, rounded up. -/
lemma ceil_spec (he : e < 4096) :
    let q := (e * 4) % u32 / 3
    let m := if (q * 3) % u32 < (e * 4) % u32 then q + 1 else q
    e * 4 ≤ m * 3 ∧ m * 3 < e * 4 + 3 := by
  simp only
  have hmod : e * 4 % u32 = e * 4 := Nat.mod_eq_of_lt (by simp only [u32]; omega)
  have hmod' : e * 4 / 3 * 3 % u32 = e * 4 / 3 * 3 := Nat.mod_eq_of_lt (by simp only [u32]; omega)
  rw [hmod, hmod']
  split_ifs <;> omega

/-- **The shrink target**: no target from an eighth of the capacity on, and else the smallest power
of two that holds the entries, if that is a smaller capacity. -/
lemma efIndexPickShrinkCapacity_spec (hk : k ≤ 15) :
    (e ≠ 0 ∧ 2 ^ k ≤ e * 8 ∧ efIndexPickShrinkCapacity e (2 ^ k) = 0) ∨
      ((e = 0 ∨ e * 8 < 2 ^ k) ∧ ∃ j, 4 ≤ j ∧ e * 4 ≤ 2 ^ j * 3 ∧
          (4 < j → 2 ^ j < 2 * ((e * 4 + 2) / 3)) ∧
        efIndexPickShrinkCapacity e (2 ^ k) = if 2 ^ k ≤ 2 ^ j then 0 else 2 ^ j) := by
  have hle : 2 ^ k ≤ 2 ^ 15 := Nat.pow_le_pow_right (by norm_num) hk
  have hpos : 0 < 2 ^ k := by positivity
  unfold efIndexPickShrinkCapacity
  rw [if_neg (by rw [not_or, not_not]; exact ⟨hpos.ne', pow_and_pred k⟩), if_neg (by omega)]
  by_cases hload : e ≠ 0 ∧ 2 ^ k ≤ e * 8
  · refine .inl ⟨hload.1, hload.2, ?_⟩
    simp only
    split_ifs <;> rfl
  have he : e = 0 ∨ e * 8 < 2 ^ k := by
    rw [not_and_or, not_not] at hload
    exact hload.imp_right Nat.lt_of_not_le
  refine .inr ⟨he, ?_⟩
  simp only
  have hceil := ceil_spec (e := e) (by omega)
  simp only at hceil
  generalize (if (e * 4) % u32 / 3 * 3 % u32 < (e * 4) % u32 then (e * 4) % u32 / 3 + 1
    else (e * 4) % u32 / 3) = m at hceil ⊢
  obtain ⟨j, hj, hround, hm, hless⟩ := roundUpLoop_spec (m := m) (k := 4) 32 (by omega)
      (by norm_num) (by omega)
  have hcap : (if 0 < e then roundUpLoop m 32 16 else 16) = 2 ^ j := by
    by_cases h0 : 0 < e
    · rw [if_pos h0]
      exact hround
    · rw [if_neg h0]
      have hm0 : m = 0 := by omega
      rcases Nat.eq_or_lt_of_le hj with rfl | hlt
      · rfl
      · have hbad := hless hlt
        omega
  refine ⟨j, hj, by omega, ?_, ?_⟩
  · intro hlt
    have hlt' := hless hlt
    omega
  · rw [hcap, if_neg hload]
    by_cases hge : 2 ^ k ≤ 2 ^ j
    · rw [if_pos hge, if_pos hge]
    · rw [if_neg hge, if_neg hge]
      exact shrinkLoop_pow 31 hj (by omega)

/-- The entry counts whose target is filled to three quarters exactly. -/
lemma efIndexPickShrinkCapacity_of_edge {i : ℕ} (hk : k ≤ 15) (he : e = 12 * 2 ^ i)
    (hload : e * 8 < 2 ^ k) :
    efIndexPickShrinkCapacity e (2 ^ k) = 16 * 2 ^ i := by
  have hpos : 0 < 2 ^ i := by positivity
  have h16 : 2 ^ (i + 4) = 16 * 2 ^ i := by
    rw [pow_add]
    ring
  rcases efIndexPickShrinkCapacity_spec (e := e) hk with ⟨-, hfull, -⟩ | ⟨-, j, hj, hholds, hless, heq⟩
  · omega
  have hji : j = i + 4 := by
    refine Nat.le_antisymm ?_ ?_
    · by_contra hlt
      have hlt' := hless (by omega)
      have hpow : 2 ^ (i + 5) ≤ 2 ^ j := Nat.pow_le_pow_right (by norm_num) (by omega)
      have h32 : 2 ^ (i + 5) = 32 * 2 ^ i := by
        rw [pow_add]
        ring
      omega
    · rw [← Nat.pow_le_pow_iff_right (show 1 < 2 by norm_num), h16]
      omega
  rw [heq, hji, h16, if_neg (by omega)]

namespace Db

/-- The codes of an insertion. -/
lemma putEntryLoop_fst (keyHash slotOffset fuel i home : ℕ) (incoming : HashEntry) (db : Db) :
    (putEntryLoop keyHash slotOffset fuel i home incoming db).1 ≠ .grow := by
  induction fuel generalizing i home incoming db with
  | zero => exact fun h => by cases h
  | succ fuel ih =>
      unfold putEntryLoop
      simp only
      split_ifs
      · exact fun h => by cases h
      · exact fun h => by cases h
      · exact fun h => by cases h
      · apply ih
      · apply ih

lemma efIndexPutEntry_fst (db : Db) (keyHash slotOffset : ℕ) :
    (db.efIndexPutEntry keyHash slotOffset).1 ≠ .grow := by
  unfold efIndexPutEntry
  split_ifs
  · exact fun h => by cases h
  · exact fun h => by cases h
  · apply putEntryLoop_fst

lemma reinsert_fst (db : Db) (es : List HashEntry) : (db.reinsert es).1 ≠ .grow := by
  induction es generalizing db with
  | nil => exact fun h => by cases h
  | cons e es ih =>
      unfold reinsert
      have hput := efIndexPutEntry_fst db e.keyHash e.slotOffset
      generalize db.efIndexPutEntry e.keyHash e.slotOffset = r at hput ⊢
      obtain ⟨err, added, db₁⟩ := r
      cases err with
      | ok => exact ih db₁
      | grow => exact absurd rfl hput
      | _ => exact fun h => by cases h

lemma rehashMove_fst (db : Db) (newCapacity : ℕ) (backup : List HashEntry) :
    (db.rehashMove newCapacity backup).1 ≠ .grow := by
  rw [rehashMove_eq]
  have hre := reinsert_fst (db.relocate newCapacity) (db.shifted newCapacity backup)
  generalize (db.relocate newCapacity).reinsert (db.shifted newCapacity backup) = r at hre ⊢
  obtain ⟨err, db₁⟩ := r
  cases err with
  | grow => exact absurd rfl hre
  | _ => exact fun h => by cases h

/-- A handle that can shrink its table of capacity `c` with `entries` entries: a memory database
whose write lock is free. -/
structure Shrinkable (db : Db) (entries c : ℕ) : Prop where
  memory : db.backend = .memory
  writable : db.readonly = false
  capacity : db.hashCapacity = c
  count : db.hashEntryCount = entries
  lock : db.efIndexWriteBegin.1 = .ok

instance (entries c : ℕ) (db : Db) : Decidable (db.Shrinkable entries c) :=
  decidable_of_iff (db.backend = .memory ∧ db.readonly = false ∧ db.hashCapacity = c ∧
      db.hashEntryCount = entries ∧ db.efIndexWriteBegin.1 = .ok)
    ⟨fun ⟨h₁, h₂, h₃, h₄, h₅⟩ => ⟨h₁, h₂, h₃, h₄, h₅⟩, fun ⟨h₁, h₂, h₃, h₄, h₅⟩ => ⟨h₁, h₂, h₃, h₄, h₅⟩⟩

/-- **A shrink to a smaller capacity** is refused as a resize exactly if the load check fails. -/
lemma Shrinkable.efIndexShrink_grow_iff {db : Db} {j : ℕ} (h : db.Shrinkable e c) (hc : c ≤ 0xFFFF)
    (hlt : 2 ^ j < c) : (db.efIndexShrink (2 ^ j)).1 = .grow ↔ ¬ ShrinkFits e (2 ^ j) := by
  let g : Geometry := ⟨0, 0, by norm_num [u64]⟩
  have hpos : 0 < 2 ^ j := by positivity
  have hix := (efIndexWriteBegin_spec g db).1
  have hcap : db.efIndexWriteBegin.2.hashCapacity = c := (congrArg Index.cap hix).trans h.capacity
  have hcount : db.efIndexWriteBegin.2.hashEntryCount = e := (congrArg Index.count hix).trans h.count
  have hback : db.efIndexWriteBegin.2.backend = .memory :=
    (frame_efIndexWriteBegin db).backend.trans h.memory
  have hok := h.lock
  unfold efIndexShrink efIndexRehashTo
  rw [if_neg hpos.ne', if_neg (by rw [h.writable]; decide), if_neg (by
    rw [not_or, not_not]
    exact ⟨by omega, pow_and_pred j⟩), if_neg (by omega)]
  generalize db.efIndexWriteBegin = r at hcap hcount hback hok ⊢
  obtain ⟨err, db₁⟩ := r
  simp only at hcap hcount hback hok
  subst hok
  simp only
  rw [if_neg (by rw [hcap]; omega), if_neg (by rw [hcap]; simp only [true_and]; omega), if_neg
      (by simp),
    if_neg (by rw [hcap]; omega), if_neg (by rw [hback]; simp)]
  by_cases hfits : ShrinkFits e (2 ^ j)
  · have hpass : ¬ (True ∧ db₁.hashEntryCount ≠ 0 ∧ 2 ^ j * 3 ≤ db₁.hashEntryCount * 4) := by
      rw [hcount]
      rintro ⟨-, h0, hle⟩
      rcases hfits with h | h
      · exact h0 h
      · omega
    rw [if_neg hpass, hback]
    refine ⟨fun hgrow => ?_, fun hno => absurd hfits hno⟩
    simp only at hgrow
    split_ifs at hgrow
    exact absurd hgrow (rehashMove_fst _ _ _)
  · have hfail : True ∧ db₁.hashEntryCount ≠ 0 ∧ 2 ^ j * 3 ≤ db₁.hashEntryCount * 4 := by
      rw [hcount]
      unfold ShrinkFits at hfits
      rw [not_or] at hfits
      exact ⟨trivial, hfits.1, Nat.le_of_not_lt hfits.2⟩
    rw [if_pos hfail]
    exact ⟨fun _ => hfits, fun _ => rfl⟩

/-- **Shrink advice is accepted**, except at the entry counts that fill the advised capacity to
three quarters exactly. -/
theorem efIndexPickShrinkCapacity_accepted_iff (hk : k ≤ 15) :
    (efIndexPickShrinkCapacity e (2 ^ k) ≠ 0 →
      (∃ j, efIndexPickShrinkCapacity e (2 ^ k) = 2 ^ j) ∧
        16 ≤ efIndexPickShrinkCapacity e (2 ^ k) ∧ efIndexPickShrinkCapacity e (2 ^ k) < 2 ^ k ∧
          ShrinkFits e (efIndexPickShrinkCapacity e (2 ^ k)) ∧
            ∀ db : Db, db.Shrinkable e (2 ^ k) →
              (db.efIndexShrink (efIndexPickShrinkCapacity e (2 ^ k))).1 ≠ .grow) ↔
      ¬ ∃ i, e = 12 * 2 ^ i ∧ e * 8 < 2 ^ k := by
  have hle : 2 ^ k ≤ 2 ^ 15 := Nat.pow_le_pow_right (by norm_num) hk
  refine ⟨?_, ?_⟩
  · rintro hright ⟨i, he, hload⟩
    have hedge := efIndexPickShrinkCapacity_of_edge hk he hload
    have hpos : 0 < 2 ^ i := by positivity
    obtain ⟨-, -, -, hfits, -⟩ := hright (by rw [hedge]; omega)
    rw [hedge] at hfits
    rcases hfits with h | h
    · omega
    · omega
  · intro hno hne
    rcases efIndexPickShrinkCapacity_spec (e := e) hk with ⟨-, -, h0⟩ | ⟨hload, j, hj, hholds, -, heq⟩
    · exact absurd h0 hne
    have hlt : 2 ^ j < 2 ^ k := by
      by_contra hge
      rw [if_pos (by omega)] at heq
      exact hne heq
    rw [if_neg (by omega)] at heq
    have hfits : ShrinkFits e (2 ^ j) := by
      rcases hload with h0 | hload
      · exact .inl h0
      · refine .inr (lt_of_le_of_ne hholds ?_)
        intro hedge
        refine hno ⟨j - 4, ?_, hload⟩
        obtain ⟨i, rfl⟩ := Nat.exists_eq_add_of_le hj
        rw [pow_add] at hedge
        rw [Nat.add_sub_cancel_left]
        omega
    have h16 : 2 ^ 4 ≤ 2 ^ j := Nat.pow_le_pow_right (by norm_num) hj
    rw [heq]
    refine ⟨⟨j, rfl⟩, h16, hlt, hfits, ?_⟩
    intro db hdb hgrow
    exact (hdb.efIndexShrink_grow_iff (hle.trans (by norm_num)) hlt).1 hgrow hfits

/-- Twelve entries in 128 buckets. -/
theorem efIndexPickShrinkCapacity_accepted_of_128 :
    (efIndexPickShrinkCapacity 12 (2 ^ 7) ≠ 0 →
      (∃ j, efIndexPickShrinkCapacity 12 (2 ^ 7) = 2 ^ j) ∧
        16 ≤ efIndexPickShrinkCapacity 12 (2 ^ 7) ∧ efIndexPickShrinkCapacity 12 (2 ^ 7) < 2 ^ 7 ∧
          ShrinkFits 12 (efIndexPickShrinkCapacity 12 (2 ^ 7)) ∧
            ∀ db : Db, db.Shrinkable 12 (2 ^ 7) →
              (db.efIndexShrink (efIndexPickShrinkCapacity 12 (2 ^ 7))).1 ≠ .grow) ↔
      ¬ ∃ i, 12 = 12 * 2 ^ i ∧ 12 * 8 < 2 ^ 7 :=
  efIndexPickShrinkCapacity_accepted_iff (by decide)

/-- After the removal of the thirteenth key the advised capacity is 16, which is refused. -/
theorem efIndexPickShrinkCapacity_refused :
    let full := ((List.range 13).map fun i => [UInt8.ofNat (i + 1)]).foldl
      (fun db key => (db.efIndexPut key 0).2) (newMemory 1 128)
    let db := (full.efIndexRemove [13]).2
    (full.efIndexRemove [13]).1 = .ok ∧ efIndexPickShrinkCapacity 12 128 = 16 ∧ db.Shrinkable 12 128 ∧
      (db.efIndexShrink 16).1 = .grow ∧ ¬ ShrinkFits 12 16 := by
  refine ⟨?_, ?_, ?_, ?_, ?_⟩
  · decide +kernel
  · decide +kernel
  · decide +kernel
  · decide +kernel
  · unfold ShrinkFits
    decide

end Db

end Endfields.Model
