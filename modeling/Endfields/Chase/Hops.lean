import Endfields.Model.Chase
import Endfields.Resize.Free

/-!
# Many hops and single hops

`ef_chase_n` follows links without the checks of `ef_chase`, and it remembers the first 64 offsets
that it visits.

* `Db.hopAt`: the offset after a number of links, with nothing checked.
* `Db.Passes`: what one round of the loop checks; `Db.chaseLoop_skip`: rounds that pass.
* **`Db.efChaseN_agrees_iff`**: a slot that `ef_chase_n` returns is the one that single hops lead to
  exactly if the links it followed lead to aligned offsets inside the file, and the last one to a
  used slot of the slot region.
* **`Db.efChaseN_detects_iff`**: a cycle behind a tail is detected exactly if the tail is shorter
  than the cache.
-/

namespace Endfields.Model

open Endfields.Lib

namespace Db

variable {db : Db} {start off n k t c : ℕ}

/-! ### The loop -/

/-- The offset after `k` links. -/
def hopAt (db : Db) (start k : ℕ) : ℕ := (fun off => (db.slotAt off).nextOffset)^[k] start

/-- No hop has been made. -/
lemma hopAt_zero (db : Db) (start : ℕ) : db.hopAt start 0 = start := rfl

/-- One hop more.
Source: `endfields.c`, `ef_chase_n` -/
lemma hopAt_succ (db : Db) (start k : ℕ) :
    db.hopAt start (k + 1) = (db.slotAt (db.hopAt start k)).nextOffset :=
  Function.iterate_succ_apply' _ _ _

/-- The cache before round `k`. -/
def visited (db : Db) (start k : ℕ) : List ℕ :=
  (List.range (min k efChaseVisitCache)).map (db.hopAt start)

/-- Round `k` meets an offset that is in the cache. -/
def Revisits (db : Db) (start k : ℕ) : Prop :=
  ∃ j, j < k ∧ j < efChaseVisitCache ∧ db.hopAt start j = db.hopAt start k

/-- Round `k` goes on to the next link. -/
structure Passes (db : Db) (start k : ℕ) : Prop where
  fresh : ¬ db.Revisits start k
  used : (db.slotAt (db.hopAt start k)).status = statusUsed
  linked : (db.slotAt (db.hopAt start k)).nextOffset ≠ 0

/-- The cache has the offset exactly when an earlier hop had it.
Source: `endfields.c`, `ef_chase_offset_seen` -/
lemma seen_visited_iff :
    efChaseOffsetSeen (db.hopAt start k) (db.visited start k) = true ↔ db.Revisits start k := by
  unfold efChaseOffsetSeen visited Revisits
  rw [List.contains_iff_mem, List.mem_map]
  constructor
  · rintro ⟨j, hj, heq⟩
    rw [List.mem_range] at hj
    exact ⟨j, by omega, by omega, heq⟩
  · rintro ⟨j, hjk, hj, heq⟩
    exact ⟨j, List.mem_range.mpr (by omega), heq⟩

/-- The offset of a round goes into the cache as long as there is room. -/
lemma visited_succ : (if (db.visited start k).length < efChaseVisitCache then
    db.visited start k ++ [db.hopAt start k] else db.visited start k) = db.visited start (k + 1) := by
  have hlen : (db.visited start k).length = min k efChaseVisitCache := by
    unfold visited
    rw [List.length_map, List.length_range]
  rw [hlen]
  unfold visited
  by_cases hk : k < efChaseVisitCache
  · rw [if_pos (by omega), min_eq_left hk.le, min_eq_left hk, List.range_succ, List.map_append]
    rfl
  · rw [if_neg (by omega), min_eq_right (by omega), min_eq_right (by omega)]

/-- One round of the loop. -/
lemma chaseLoop_round (fuel : ℕ) :
    db.chaseLoop (fuel + 1) k (db.hopAt start k) (db.visited start k) =
      if efChaseOffsetSeen (db.hopAt start k) (db.visited start k) = true then .failed .chaseCycle
      else if (db.slotAt (db.hopAt start k)).status ≠ statusUsed then .failed .slotFree
      else if (db.slotAt (db.hopAt start k)).nextOffset = 0 then .landed (db.hopAt start k) (k + 1)
      else db.chaseLoop fuel (k + 1) (db.hopAt start (k + 1)) (db.visited start (k + 1)) := by
  rw [chaseLoop]
  simp only
  rw [visited_succ, ← hopAt_succ]

/-- **Rounds that pass** lead along the links. -/
lemma chaseLoop_skip (hk : k ≤ n) (h : ∀ j, j < k → db.Passes start j) :
    db.chaseLoop n 0 start [] =
      db.chaseLoop (n - k) k (db.hopAt start k) (db.visited start k) := by
  induction k with
  | zero => rfl
  | succ k ih =>
      have hpass := h k (by omega)
      obtain ⟨fuel, hfuel⟩ : ∃ fuel, n - k = fuel + 1 := ⟨n - k - 1, by omega⟩
      rw [ih (by omega) fun j hj => h j (by omega), hfuel, chaseLoop_round,
        if_neg fun hs => hpass.fresh (seen_visited_iff.mp hs), if_neg (not_not.mpr hpass.used),
        if_neg hpass.linked, show n - (k + 1) = fuel by omega]

/-- All rounds pass. -/
lemma chaseLoop_reached (h : ∀ j, j < n → db.Passes start j) :
    db.chaseLoop n 0 start [] = .reached (db.hopAt start n) := by
  rw [chaseLoop_skip le_rfl h, Nat.sub_self, chaseLoop]

/-- Round `k` is the last one. -/
lemma chaseLoop_last (hk : k < n) (h : ∀ j, j < k → db.Passes start j) (hlast : ¬ db.Passes start k) :
    (db.Revisits start k ∧ db.chaseLoop n 0 start [] = .failed .chaseCycle) ∨
      (¬ db.Revisits start k ∧ (db.slotAt (db.hopAt start k)).status ≠ statusUsed ∧
        db.chaseLoop n 0 start [] = .failed .slotFree) ∨
      (¬ db.Revisits start k ∧ (db.slotAt (db.hopAt start k)).status = statusUsed ∧
        (db.slotAt (db.hopAt start k)).nextOffset = 0 ∧
        db.chaseLoop n 0 start [] = .landed (db.hopAt start k) (k + 1)) := by
  obtain ⟨fuel, hfuel⟩ : ∃ fuel, n - k = fuel + 1 := ⟨n - k - 1, by omega⟩
  rw [chaseLoop_skip hk.le h, hfuel, chaseLoop_round]
  by_cases hre : db.Revisits start k
  · exact .inl ⟨hre, by rw [if_pos (seen_visited_iff.mpr hre)]⟩
  rw [if_neg fun hs => hre (seen_visited_iff.mp hs)]
  by_cases hused : (db.slotAt (db.hopAt start k)).status = statusUsed
  · have hnext : (db.slotAt (db.hopAt start k)).nextOffset = 0 := by
      by_contra hne
      exact hlast ⟨hre, hused, hne⟩
    rw [if_neg (not_not.mpr hused), if_pos hnext]
    exact .inr (.inr ⟨hre, hused, hnext, rfl⟩)
  · rw [if_pos hused]
    exact .inr (.inl ⟨hre, hused, rfl⟩)

/-- The first round that does not pass, if there is one. -/
lemma passes_all_or_last (db : Db) (start n : ℕ) : (∀ j, j < n → db.Passes start j) ∨
    ∃ k, k < n ∧ (∀ j, j < k → db.Passes start j) ∧ ¬ db.Passes start k := by
  induction n with
  | zero => exact .inl fun j hj => absurd hj (Nat.not_lt_zero j)
  | succ n ih =>
      rcases ih with hall | ⟨k, hk, hbefore, hlast⟩
      · by_cases hn : db.Passes start n
        · refine .inl fun j hj => ?_
          rcases Nat.lt_succ_iff_lt_or_eq.mp hj with hlt | rfl
          · exact hall j hlt
          · exact hn
        · exact .inr ⟨n, Nat.lt_succ_self n, hall, hn⟩
      · exact .inr ⟨k, by omega, hbefore, hlast⟩

/-! ### Cycles -/

/-- Used slots linked one to the next: a tail of `t` slots that runs into a cycle of `c` slots. -/
structure Lasso (db : Db) (s : ℕ → ℕ) (t c : ℕ) : Prop where
  cyclic : 0 < c
  id_lt : ∀ k, k < t + c → s k < db.sb.maxSlots
  distinct : ∀ j k, j < t + c → k < t + c → s j = s k → j = k
  used : ∀ k, k < t + c → (db.slot (s k)).status = statusUsed
  linked : ∀ k, k + 1 < t + c → (db.slot (s k)).nextOffset = db.efSlotToOffset (s (k + 1))
  back : (db.slot (s (t + c - 1))).nextOffset = db.efSlotToOffset (s t)

variable {s : ℕ → ℕ}

/-- In a mapped handle the offset of a slot is its place.
Source: `endfields.c`, `ef_slot_to_offset` -/
lemma Mapped.efSlotToOffset_eq {i : ℕ} (hm : db.Mapped) (hi : i < db.sb.maxSlots) :
    db.efSlotToOffset i = db.slotPtr i := by
  have hin := hm.inFile
  have hbound := hm.bound
  unfold efSlotToOffset slotPtr
  rw [if_neg (by omega), Nat.mod_eq_of_lt (by unfold u64; omega)]

/-- Different slots lie at different places. -/
lemma slotPtr_inj {i j : ℕ} (h : db.slotPtr i = db.slotPtr j) : i = j := by
  unfold slotPtr at h
  omega

/-- The start of `ef_chase_n` at a slot. -/
lemma efChaseN_start {i : ℕ} (hm : db.Mapped) (hi : i < db.sb.maxSlots) (hn : 0 < n)
    (hmax : n ≤ efChaseMaxDepth) :
    db.efChaseN (db.efSlotToOffset i) n =
      match db.chaseLoop n 0 (db.slotPtr i) [] with
      | .failed err => (none, none, db.setError err)
      | .landed p hopsDone => (some p, some hopsDone, db.setError .ok)
      | .reached offset => (some offset, some n, db.setError .ok) := by
  have hin := hm.inFile
  have hptr : db.slotPtr i = db.slotsBase + 64 * i := rfl
  have hlim : ¬ efChaseMaxDepth < n := by omega
  unfold efChaseN
  rw [hm.efSlotToOffset_eq hi, if_neg (by omega)]
  simp only [if_neg hlim]
  refine (if_neg ?_).trans ((if_neg ?_).trans rfl)
  · rw [hptr]
    omega
  · rw [hptr]
    omega

/-- The walk along a lasso stays on its slots, and in its cycle once it is there. -/
lemma Lasso.hopAt_eq (hm : db.Mapped) (h : db.Lasso s t c) (k : ℕ) :
    ∃ i, i < t + c ∧ (k < t + c → i = k) ∧ (t ≤ k → t ≤ i) ∧
      db.hopAt (db.slotPtr (s 0)) k = db.slotPtr (s i) := by
  have hc := h.cyclic
  induction k with
  | zero => exact ⟨0, by omega, fun _ => rfl, fun ht => ht, rfl⟩
  | succ k ih =>
      obtain ⟨i, hi, hlow, hhigh, heq⟩ := ih
      have hnext : db.hopAt (db.slotPtr (s 0)) (k + 1) = (db.slot (s i)).nextOffset := by
        rw [hopAt_succ, heq]
        rfl
      by_cases hlast : i + 1 < t + c
      · refine ⟨i + 1, hlast, fun hk => ?_, fun hk => by omega, ?_⟩
        · rw [hlow (by omega)]
        · rw [hnext, h.linked i hlast, hm.efSlotToOffset_eq (h.id_lt _ hlast)]
      · have hi' : i = t + c - 1 := by omega
        refine ⟨t, by omega, fun hk => ?_, fun _ => le_rfl, ?_⟩
        · have := hlow (by omega)
          omega
        · rw [hnext, hi', h.back, hm.efSlotToOffset_eq (h.id_lt t (by omega))]

/-- The walk is back at the first slot of the cycle after as many links as there are slots. -/
lemma Lasso.hopAt_back (hm : db.Mapped) (h : db.Lasso s t c) :
    db.hopAt (db.slotPtr (s 0)) (t + c) = db.hopAt (db.slotPtr (s 0)) t := by
  have hc := h.cyclic
  obtain ⟨i, -, hlow, -, heq⟩ := h.hopAt_eq hm (t + c - 1)
  obtain ⟨j, -, hlow', -, heq'⟩ := h.hopAt_eq hm t
  rw [show t + c = t + c - 1 + 1 by omega, hopAt_succ, heq, hlow (by omega), heq', hlow' (by omega)]
  change (db.slot (s (t + c - 1))).nextOffset = _
  rw [h.back, hm.efSlotToOffset_eq (h.id_lt t (by omega))]

/-- A slot of a lasso is used and has a link. -/
lemma Lasso.passes_of_fresh (hm : db.Mapped) (h : db.Lasso s t c) {k : ℕ}
    (hfresh : ¬ db.Revisits (db.slotPtr (s 0)) k) : db.Passes (db.slotPtr (s 0)) k := by
  obtain ⟨i, hi, -, -, heq⟩ := h.hopAt_eq hm k
  obtain ⟨j, -, -, -, heq'⟩ := h.hopAt_eq hm (k + 1)
  refine ⟨hfresh, ?_, ?_⟩
  · rw [heq]
    exact h.used i hi
  · rw [← hopAt_succ, heq']
    have := db.slotsBase_ge
    unfold slotPtr
    omega

/-- Nothing is met again before the walk has been at all slots. -/
lemma Lasso.fresh_of_lt (hm : db.Mapped) (h : db.Lasso s t c) {k : ℕ} (hk : k < t + c) :
    ¬ db.Revisits (db.slotPtr (s 0)) k := by
  rintro ⟨j, hjk, -, hj⟩
  obtain ⟨i, hi, hlow, -, heq⟩ := h.hopAt_eq hm j
  obtain ⟨i', hi', hlow', -, heq'⟩ := h.hopAt_eq hm k
  rw [heq, heq'] at hj
  have := h.distinct i i' hi hi' (slotPtr_inj hj)
  have := hlow (by omega)
  have := hlow' hk
  omega

/-- A cycle behind a tail that fills the cache is never noticed. -/
lemma Lasso.fresh_of_long (hm : db.Mapped) (h : db.Lasso s t c) (ht : efChaseVisitCache ≤ t) (k : ℕ) :
    ¬ db.Revisits (db.slotPtr (s 0)) k := by
  by_cases hk : k < t + c
  · exact h.fresh_of_lt hm hk
  rintro ⟨j, hjk, hj, hjeq⟩
  obtain ⟨i, hi, hlow, -, heq⟩ := h.hopAt_eq hm j
  obtain ⟨i', hi', -, hhigh, heq'⟩ := h.hopAt_eq hm k
  rw [heq, heq'] at hjeq
  have := h.distinct i i' hi hi' (slotPtr_inj hjeq)
  have := hlow (by omega)
  have := hhigh (by omega)
  omega

/-- **A cycle is detected** exactly if the tail before it is shorter than the cache. -/
theorem efChaseN_detects_iff (hm : db.Mapped) (h : db.Lasso s t c) (hn : t + c < n)
    (hmax : n ≤ efChaseMaxDepth) :
    ((db.efChaseN (db.efSlotToOffset (s 0)) n).1 = none ∧
        (db.efChaseN (db.efSlotToOffset (s 0)) n).2.2.lastErr = .chaseCycle) ↔
      t < efChaseVisitCache := by
  have hc := h.cyclic
  rw [efChaseN_start hm (h.id_lt 0 (by omega)) (by omega) hmax]
  by_cases ht : t < efChaseVisitCache
  · have hre : db.Revisits (db.slotPtr (s 0)) (t + c) := ⟨t, by omega, ht, (h.hopAt_back hm).symm⟩
    have hbefore : ∀ j, j < t + c → db.Passes (db.slotPtr (s 0)) j := fun j hj =>
      h.passes_of_fresh hm (h.fresh_of_lt hm hj)
    rcases chaseLoop_last hn hbefore fun hp => hp.fresh hre with ⟨-, hloop⟩ | ⟨hnot, -⟩ | ⟨hnot, -⟩
    · rw [hloop]
      exact ⟨fun _ => ht, fun _ => ⟨rfl, rfl⟩⟩
    · exact absurd hre hnot
    · exact absurd hre hnot
  · rw [chaseLoop_reached fun j _ => h.passes_of_fresh hm (h.fresh_of_long hm (by omega) j)]
    refine ⟨fun hnone => ?_, fun hlt => absurd hlt ht⟩
    cases hnone.1

/-- Two slots, the first allocated first, linked to each other. -/
def twoCycle : Db :=
  (((newMemory 2 0).efAllocSlot.2.2.efAllocSlot.2.2.efSetNextOffset 0 128).2.efSetNextOffset 1 64).2

/-- The image with a cycle of two slots. -/
lemma lasso_twoCycle : twoCycle.Lasso id 0 2 where
  cyclic := by decide
  id_lt := by decide +kernel
  distinct := fun _ _ _ _ h => h
  used := by decide +kernel
  linked := by
    intro k hk
    obtain rfl : k = 0 := by omega
    decide +kernel
  back := by decide +kernel

/-- A cycle of two slots without a tail, in eight hops. -/
theorem efChaseN_detects_two :
    ((twoCycle.efChaseN (twoCycle.efSlotToOffset 0) 8).1 = none ∧
        (twoCycle.efChaseN (twoCycle.efSlotToOffset 0) 8).2.2.lastErr = .chaseCycle) ↔
      0 < efChaseVisitCache := by
  simpa only [id_eq] using
    efChaseN_detects_iff (n := 8) (by decide +kernel) lasso_twoCycle (by decide) (by decide)

/-- 65 used slots, each linked to the next one and the last one to itself, without checksums. -/
def longTail : Db :=
  let db := ((newMemory 1 0).setMaxSlots 65).setFlags 0
  { db with
    mem := fun a =>
      if a < 64 then db.mem a
      else
        let i := (a - 64) / 64
        if 65 ≤ i then 0
        else if (a - 64) % 64 = 0 then 1
        else if (a - 64) % 64 < 56 then 0
        else UInt8.ofNat ((64 + 64 * min (i + 1) 64) / 256 ^ ((a - 64) % 64 - 56))
    fileSize := efExpectedFileSize 65 0 undoLogDefaultSlots
    mapCapacity := efExpectedFileSize 65 0 undoLogDefaultSlots
    undoLogBase := 64 + 64 * 65 }

/-- The image with a tail of 64 slots. -/
lemma lasso_longTail : longTail.Lasso id 64 1 where
  cyclic := by decide
  id_lt := by decide +kernel
  distinct := fun _ _ _ _ h => h
  used := by decide +kernel
  linked := by
    intro k hk
    have h : ∀ k, k < 64 → (longTail.slot k).nextOffset = longTail.efSlotToOffset (k + 1) := by
      decide +kernel
    exact h k (by omega)
  back := by decide +kernel

/-- A tail of 64 slots takes all of the cache, and 66 hops end inside the cycle without an error. -/
theorem efChaseN_misses_cycle :
    longTail.Mapped ∧ longTail.Lasso id 64 1 ∧ 64 + 1 < 66 ∧ 66 ≤ efChaseMaxDepth ∧
      longTail.efSlotToOffset 0 = 64 ∧
      (longTail.efChaseN 64 66).1 = some 4160 ∧ (longTail.efChaseN 64 66).2.2.lastErr = .ok :=
  ⟨by decide +kernel, lasso_longTail, by decide, by decide, by decide +kernel, by decide +kernel,
    by decide +kernel⟩

/-! ### Single hops -/

/-- `n` single hops, which stop at a slot without a link; nothing if one of them is refused. -/
def chaseTimes (db : Db) : ℕ → ℕ → Option ℕ
  | 0, p => some p
  | n + 1, p =>
      if (db.slotAt p).nextOffset = 0 then some p
      else
        match (db.efChase p).1 with
        | some q => chaseTimes db n q
        | none => none

/-- A link target that a single hop accepts if the slot there is used. -/
def OnGrid (db : Db) (off : ℕ) : Prop :=
  db.slotsBase ≤ off ∧ off < db.fileSize ∧ (off - db.slotsBase) % 64 = 0

instance (off : ℕ) : Decidable (db.OnGrid off) := inferInstanceAs (Decidable (_ ∧ _ ∧ _))

/-- The walk of `n` hops ends with a slot, after `m` links. -/
def EndsAt (db : Db) (start n m : ℕ) : Prop :=
  (∀ j, j < m → db.Passes start j) ∧
    (m = n ∨ m < n ∧ ¬ db.Revisits start m ∧ (db.slotAt (db.hopAt start m)).status = statusUsed ∧
      (db.slotAt (db.hopAt start m)).nextOffset = 0)

/-- One hop more, at the other end.
Source: `endfields.c`, `ef_chase_n` -/
lemma hopAt_succ' (db : Db) (start k : ℕ) :
    db.hopAt start (k + 1) = db.hopAt (db.slotAt start).nextOffset k :=
  Function.iterate_succ_apply _ _ _

/-- One hop from a slot with a link. -/
lemma efChase_eq_some_iff {p q : ℕ} (hlinked : (db.slotAt p).nextOffset ≠ 0) :
    (db.efChase p).1 = some q ↔ q = (db.slotAt p).nextOffset ∧
      db.OnGrid (db.slotAt p).nextOffset ∧
      (db.slotAt (db.slotAt p).nextOffset).status = statusUsed := by
  unfold efChase OnGrid
  simp only
  rw [if_neg hlinked]
  split_ifs with hrange hgrid hused
  · refine ⟨fun h => absurd h nofun, fun ⟨_, ⟨hlow, hhigh, _⟩, _⟩ => ?_⟩
    omega
  · exact ⟨fun h => absurd h nofun, fun ⟨_, ⟨_, _, halign⟩, _⟩ => absurd halign hgrid⟩
  · exact ⟨fun h => absurd h nofun, fun ⟨_, _, h⟩ => absurd h hused⟩
  · have hlow : db.slotsBase ≤ (db.slotAt p).nextOffset := by omega
    have hhigh : (db.slotAt p).nextOffset < db.fileSize := by omega
    refine ⟨fun h => ?_, fun h => by rw [h.1]⟩
    exact ⟨(Option.some.inj h).symm, ⟨hlow, hhigh, not_not.mp hgrid⟩, not_not.mp hused⟩

/-- Single hops along linked slots arrive if each of them is accepted. -/
lemma chaseTimes_eq_some_iff {m q : ℕ}
    (hlinked : ∀ k, k < m → (db.slotAt (db.hopAt start k)).nextOffset ≠ 0)
    (hend : m = n ∨ m < n ∧ (db.slotAt (db.hopAt start m)).nextOffset = 0) :
    db.chaseTimes n start = some q ↔ q = db.hopAt start m ∧
      ∀ k, k < m → db.OnGrid (db.hopAt start (k + 1)) ∧
        (db.slotAt (db.hopAt start (k + 1))).status = statusUsed := by
  induction m generalizing n start with
  | zero =>
      have hstay : db.chaseTimes n start = some start := by
        rcases hend with rfl | ⟨hn, hnext⟩
        · rfl
        · obtain ⟨n, rfl⟩ := Nat.exists_eq_add_of_lt hn
          exact if_pos hnext
      rw [hstay, hopAt_zero]
      exact ⟨fun h => ⟨(Option.some.inj h).symm, fun k hk => absurd hk (Nat.not_lt_zero k)⟩,
        fun h => by rw [h.1]⟩
  | succ m ih =>
      obtain ⟨n, rfl⟩ : ∃ n', n = n' + 1 := ⟨n - 1, by omega⟩
      have hfirst : (db.slotAt start).nextOffset ≠ 0 := hlinked 0 (by omega)
      have hrest := @ih (db.slotAt start).nextOffset n
        (fun k hk => by
          rw [← hopAt_succ']
          exact hlinked (k + 1) (by omega))
        (by
          rw [← hopAt_succ']
          omega)
      rw [chaseTimes, if_neg hfirst]
      constructor
      · intro h
        split at h
        · rename_i q' hq'
          obtain ⟨rfl, hgrid, hused⟩ := (efChase_eq_some_iff hfirst).mp hq'
          obtain ⟨hq, hall⟩ := hrest.mp h
          refine ⟨by rw [hopAt_succ', hq], fun k hk => ?_⟩
          rcases k with _ | k
          · rw [hopAt_succ']
            exact ⟨hgrid, hused⟩
          · rw [hopAt_succ']
            exact hall k (by omega)
        · cases h
      · rintro ⟨hq, hall⟩
        have hzero := hall 0 (by omega)
        rw [hopAt_succ', hopAt_zero] at hzero
        rw [(efChase_eq_some_iff hfirst).mpr ⟨rfl, hzero.1, hzero.2⟩]
        refine hrest.mpr ⟨by rw [hq, hopAt_succ'], fun k hk => ?_⟩
        have := hall (k + 1) (by omega)
        rwa [hopAt_succ'] at this

/-- The slot that `ef_chase_n` returns. -/
lemma efChaseN_eq_some_iff {i q : ℕ} (hm : db.Mapped) (hi : i < db.sb.maxSlots) (hn : 0 < n)
    (hmax : n ≤ efChaseMaxDepth) : (db.efChaseN (db.efSlotToOffset i) n).1 = some q ↔
      ∃ m, db.EndsAt (db.slotPtr i) n m ∧ q = db.hopAt (db.slotPtr i) m := by
  rw [efChaseN_start hm hi hn hmax]
  rcases passes_all_or_last db (db.slotPtr i) n with hall | ⟨k, hk, hbefore, hlast⟩
  · rw [chaseLoop_reached hall]
    refine ⟨fun h => ⟨n, ⟨hall, .inl rfl⟩, (Option.some.inj h).symm⟩, ?_⟩
    rintro ⟨m, ⟨-, rfl | ⟨hlt, hfresh, hused, hnext⟩⟩, rfl⟩
    · rfl
    · exact absurd hnext (hall m hlt).linked
  · -- a walk that ends with a slot ends at the first round that does not pass
    have hends : ∀ m, db.EndsAt (db.slotPtr i) n m → m = k := by
      rintro m ⟨hpass, hstop⟩
      rcases Nat.lt_trichotomy m k with hlt | heq | hgt
      · rcases hstop with rfl | ⟨-, -, -, hnext⟩
        · omega
        · exact absurd hnext (hbefore m hlt).linked
      · exact heq
      · exact absurd (hpass k hgt) hlast
    rcases chaseLoop_last hk hbefore hlast with ⟨hre, hloop⟩ | ⟨-, hused, hloop⟩ |
      ⟨hfresh, hused, hnext, hloop⟩
    · rw [hloop]
      refine ⟨fun h => absurd h nofun, ?_⟩
      rintro ⟨m, hm, -⟩
      obtain rfl := hends m hm
      rcases hm.2 with rfl | ⟨-, hfresh, -⟩
      · omega
      · exact absurd hre hfresh
    · rw [hloop]
      refine ⟨fun h => absurd h nofun, ?_⟩
      rintro ⟨m, hm, -⟩
      obtain rfl := hends m hm
      rcases hm.2 with rfl | ⟨-, -, hused', -⟩
      · omega
      · exact absurd hused' hused
    · rw [hloop]
      refine ⟨fun h => ⟨k, ⟨hbefore, .inr ⟨hk, hfresh, hused, hnext⟩⟩, (Option.some.inj h).symm⟩, ?_⟩
      rintro ⟨m, hm, rfl⟩
      rw [hends m hm]

/-- **Many hops and single hops** lead to the same used slot exactly if, on a walk that ends with a
slot, every link leads to an aligned offset in the file, and the last one to a used slot of the slot
region. -/
theorem efChaseN_agrees_iff {i : ℕ} (hm : db.Mapped) (hi : i < db.sb.maxSlots) (hn : 0 < n)
    (hmax : n ≤ efChaseMaxDepth) :
    (∀ q, (db.efChaseN (db.efSlotToOffset i) n).1 = some q →
        db.chaseTimes n (db.slotPtr i) = some q ∧ (db.slotAt q).status = statusUsed ∧
          ∃ j, j < db.sb.maxSlots ∧ q = db.slotPtr j) ↔
      ∀ m, db.EndsAt (db.slotPtr i) n m →
        (∀ k, k < m → db.OnGrid (db.hopAt (db.slotPtr i) (k + 1))) ∧
          (db.slotAt (db.hopAt (db.slotPtr i) m)).status = statusUsed ∧
          ∃ j, j < db.sb.maxSlots ∧ db.hopAt (db.slotPtr i) m = db.slotPtr j := by
  have htimes : ∀ m, db.EndsAt (db.slotPtr i) n m → ∀ q, db.chaseTimes n (db.slotPtr i) = some q ↔
      q = db.hopAt (db.slotPtr i) m ∧ ∀ k, k < m → db.OnGrid (db.hopAt (db.slotPtr i) (k + 1)) ∧
        (db.slotAt (db.hopAt (db.slotPtr i) (k + 1))).status = statusUsed := fun m hends q =>
    chaseTimes_eq_some_iff (fun k hk => (hends.1 k hk).linked)
      (hends.2.imp_right fun h => ⟨h.1, h.2.2.2⟩)
  constructor
  · intro h m hends
    obtain ⟨hsame, hlast, hslot⟩ := h _ ((efChaseN_eq_some_iff hm hi hn hmax).mpr ⟨m, hends, rfl⟩)
    exact ⟨fun k hk => (((htimes m hends _).mp hsame).2 k hk).1, hlast, hslot⟩
  · intro h q hq
    obtain ⟨m, hends, rfl⟩ := (efChaseN_eq_some_iff hm hi hn hmax).mp hq
    obtain ⟨hgrid, hlast, hslot⟩ := h m hends
    refine ⟨(htimes m hends _).mpr ⟨rfl, fun k hk => ⟨hgrid k hk, ?_⟩⟩, hlast, hslot⟩
    -- the slot after link `k` is checked by the round that follows, or it is the last one
    rcases Nat.lt_or_eq_of_le (Nat.succ_le_of_lt hk) with hlt | heq
    · exact (hends.1 (k + 1) hlt).used
    · rw [show k + 1 = m from heq]
      exact hlast

/-- Four slots in use, each linked to the next. -/
def fourInLine : Db :=
  let db := (newMemory 4 0).efAllocSlot.2.2.efAllocSlot.2.2.efAllocSlot.2.2.efAllocSlot.2.2
  (((db.efSetNextOffset 0 128).2.efSetNextOffset 1 192).2.efSetNextOffset 2 256).2

/-- Along all three links. -/
theorem efChaseN_agrees_of_line :
    (fourInLine.efChaseN (fourInLine.efSlotToOffset 0) 3).1 = some 256 ∧
      ((∀ q, (fourInLine.efChaseN (fourInLine.efSlotToOffset 0) 3).1 = some q →
          fourInLine.chaseTimes 3 (fourInLine.slotPtr 0) = some q ∧
            (fourInLine.slotAt q).status = statusUsed ∧
            ∃ j, j < fourInLine.sb.maxSlots ∧ q = fourInLine.slotPtr j) ↔
        ∀ m, fourInLine.EndsAt (fourInLine.slotPtr 0) 3 m →
          (∀ k, k < m → fourInLine.OnGrid (fourInLine.hopAt (fourInLine.slotPtr 0) (k + 1))) ∧
            (fourInLine.slotAt (fourInLine.hopAt (fourInLine.slotPtr 0) m)).status = statusUsed ∧
            ∃ j, j < fourInLine.sb.maxSlots ∧
              fourInLine.hopAt (fourInLine.slotPtr 0) m = fourInLine.slotPtr j) :=
  ⟨by decide +kernel,
    efChaseN_agrees_iff (by decide +kernel) (by decide +kernel) (by decide) (by decide)⟩

/-- One hop to a slot that is free: `ef_chase` refuses it, and `ef_chase_n` returns it. -/
theorem efChaseN_lands_on_free :
    let db := ((newMemory 2 0).efAllocSlot.2.2.efSetNextOffset 0 128).2
    db.Mapped ∧ (db.slot 0).status = statusUsed ∧ db.efSlotToOffset 0 = 64 ∧
      (db.efChaseN 64 1).1 = some 128 ∧ (db.slotAt 128).status = statusFree ∧
      db.chaseTimes 1 64 = none := by decide +kernel

end Db

end Endfields.Model
