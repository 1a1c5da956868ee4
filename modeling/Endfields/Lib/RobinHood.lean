import Mathlib

/-!
# Robin Hood tables

Open addressing with linear probing and displacement, over any keys with a home bucket below the
capacity `n`. A table is a function from bucket numbers; an index `i` that is not reduced stands for
the bucket `i % n`.

* `Ok n home t`: no key twice, and a bucket that is off its home follows an occupied bucket that is
  at most one closer to its own. That is what every operation keeps, also in a full table.
* `find`, `shift` and `put` are the loops of lookup, deletion and insertion.
* **Lookup** (`find_eq_some_iff`), **deletion** (`shift_spec`, `shift_isSome`) and **insertion**
  (`put_spec`) act on the set of entries as on a map.
* `Overruns`: the insertion carries an entry on to the index where its own loop bound ends.
  **`put_full_iff`** says that an insertion that displaces an entry fails exactly then.
* `fills`: the entries go into the table one after the other; their values do not matter
  (`fills_map`).
-/

namespace Endfields.Lib.RobinHood

variable {κ β : Type*}

/-! ### Probe distances -/

/-- How far bucket `p` is from bucket `h`. -/
def dist (n h p : ℕ) : ℕ := (p + n - h) % n

variable {n h p d i j : ℕ}

/-- The distance, without the remainder. -/
lemma dist_eq (hh : h < n) (hp : p < n) : dist n h p = if h ≤ p then p - h else p + n - h := by
  unfold dist
  split_ifs with hle
  · rw [show p + n - h = p - h + n by omega, Nat.add_mod_right]
    exact Nat.mod_eq_of_lt (by omega)
  · exact Nat.mod_eq_of_lt (by omega)

/-- A distance is less than the capacity. -/
lemma dist_lt (hn : 0 < n) : dist n h p < n := Nat.mod_lt _ hn

/-- The next position is the next bucket, or the first one. -/
lemma succ_mod (hn : 0 < n) (i : ℕ) :
    (i + 1) % n = if i % n + 1 = n then 0 else i % n + 1 := by
  have hlt := Nat.mod_lt i hn
  rw [Nat.add_mod]
  by_cases h1 : n = 1
  · subst h1
    simp [Nat.mod_one]
  · rw [Nat.mod_eq_of_lt (show 1 < n by omega)]
    split_ifs with heq
    · rw [heq, Nat.mod_self]
    · exact Nat.mod_eq_of_lt (by omega)

/-- One bucket further on, the distance is one more, or wraps. -/
lemma dist_succ (hh : h < n) (i : ℕ) :
    dist n h ((i + 1) % n) = if dist n h (i % n) + 1 = n then 0 else dist n h (i % n) + 1 := by
  have hn : 0 < n := by omega
  have hlt := Nat.mod_lt i hn
  have hlt' := Nat.mod_lt (i + 1) hn
  rw [dist_eq hh hlt, dist_eq hh hlt', succ_mod hn]
  split_ifs <;> omega

/-- The distance of the bucket that is `j` further on than `h`. -/
lemma dist_add (hh : h < n) (hj : j < n) : dist n h ((h + j) % n) = j := by
  rw [dist_eq hh (Nat.mod_lt _ (by omega))]
  by_cases hlt : h + j < n
  · rw [Nat.mod_eq_of_lt hlt]
    split_ifs <;> omega
  · rw [Nat.mod_eq_sub_mod (by omega), Nat.mod_eq_of_lt (show h + j - n < n by omega)]
    split_ifs <;> omega

/-- A bucket is where its distance says. -/
lemma add_dist (hh : h < n) (i : ℕ) : (h + dist n h (i % n)) % n = i % n := by
  have hlt := Nat.mod_lt i (show 0 < n by omega)
  rw [dist_eq hh hlt]
  split_ifs with hle
  · rw [Nat.add_sub_cancel' hle, Nat.mod_mod]
  · rw [show h + (i % n + n - h) = i % n + n by omega, Nat.add_mod_right, Nat.mod_mod]

/-- Two homes with the same distance to a bucket are the same. -/
lemma home_unique {h' : ℕ} (hh : h < n) (hh' : h' < n) (hp : p < n)
    (heq : dist n h p = dist n h' p) : h = h' := by
  rw [dist_eq hh hp, dist_eq hh' hp] at heq
  split_ifs at heq <;> omega

/-! ### Tables -/

variable (n) (home : κ → ℕ)

/-- A bucket that is off its home follows an occupied bucket that is at most one closer to its
own. -/
def Sorted (t : ℕ → Option (κ × β)) : Prop :=
  ∀ i e, t ((i + 1) % n) = some e → dist n (home e.1) ((i + 1) % n) ≠ 0 →
    ∃ e', t (i % n) = some e' ∧
      dist n (home e.1) ((i + 1) % n) ≤ dist n (home e'.1) (i % n) + 1

/-- The entries of a table are where the probe sequences find them. -/
structure Ok (t : ℕ → Option (κ × β)) : Prop where
  sorted : Sorted n home t
  unique : ∀ i j e e', t (i % n) = some e → t (j % n) = some e' → e.1 = e'.1 → i % n = j % n

/-- The table holds an entry. -/
def Mem (t : ℕ → Option (κ × β)) (e : κ × β) : Prop := ∃ i, t (i % n) = some e

/-- The probe loop of a lookup, from index `i`: the bucket that holds the key. -/
def find [DecidableEq κ] (t : ℕ → Option (κ × β)) (k : κ) : ℕ → ℕ → Option ℕ
  | 0, _ => none
  | fuel + 1, i =>
      match t (i % n) with
      | none => none
      | some e => if e.1 = k then some (i % n) else find t k fuel (i + 1)

/-- The backward-shift loop of a deletion, from the bucket `p` to be filled. -/
def shift : ℕ → ℕ → (ℕ → Option (κ × β)) → Option (ℕ → Option (κ × β))
  | 0, _, _ => none
  | fuel + 1, p, t =>
      match t ((p + 1) % n) with
      | none => some (Function.update t p none)
      | some e =>
          if dist n (home e.1) ((p + 1) % n) = 0 then some (Function.update t p none)
          else shift fuel ((p + 1) % n) (Function.update t p (some e))

/-- Deletion of a key. No shift has more than `n * n` steps. -/
def delete [DecidableEq κ] (k : κ) (t : ℕ → Option (κ × β)) : ℕ → Option (κ × β) :=
  match find n t k n (home k) with
  | none => t
  | some p => (shift n home (n * n + 1) p t).getD t

/-- The entries, in the order of the buckets. -/
def entries (t : ℕ → Option (κ × β)) : List (κ × β) := (List.range n).filterMap t

/-- What an insertion did. -/
inductive Outcome
  | added | updated | full
  deriving DecidableEq

/-- The insertion loop for the key `k` with the value `v`, at index `i` with the entry `c` to be
placed. -/
def put [DecidableEq κ] (k : κ) (v : β) : ℕ → ℕ → κ × β → (ℕ → Option (κ × β)) →
    Outcome × (ℕ → Option (κ × β))
  | 0, _, _, t => (.full, t)
  | fuel + 1, i, c, t =>
      if home c.1 + n ≤ i then (.full, t)
      else
        match t (i % n) with
        | none => (.added, Function.update t (i % n) (some c))
        | some e =>
            if e.1 = k then (.updated, Function.update t (i % n) (some (k, v)))
            else if dist n (home e.1) (i % n) < dist n (home c.1) (i % n) then
              put k v fuel (i + 1) e (Function.update t (i % n) (some c))
            else put k v fuel (i + 1) c t

variable {n home} {t : ℕ → Option (κ × β)} {k : κ} {v : β} {e : κ × β}

/-! ### Lookup -/

/-- From the home of an entry up to the entry every bucket is occupied, and at least as far from its
own home. -/
lemma Ok.path (ht : Ok n home t) (hh : ∀ k, home k < n) (he : t (i % n) = some e) (j : ℕ)
    (hj : j ≤ dist n (home e.1) (i % n)) :
    ∃ e', t ((home e.1 + j) % n) = some e' ∧ j ≤ dist n (home e'.1) ((home e.1 + j) % n) := by
  -- from the entry backwards: `m` buckets before it
  have hback : ∀ m, m ≤ dist n (home e.1) (i % n) →
      ∃ e', t ((home e.1 + (dist n (home e.1) (i % n) - m)) % n) = some e' ∧
        dist n (home e.1) (i % n) - m ≤
          dist n (home e'.1) ((home e.1 + (dist n (home e.1) (i % n) - m)) % n) := by
    intro m
    induction m with
    | zero =>
        intro _
        rw [Nat.sub_zero, add_dist (hh _)]
        exact ⟨e, he, le_rfl⟩
    | succ m ih =>
        intro hm
        obtain ⟨e', he', hle⟩ := ih (by omega)
        have hidx : home e.1 + (dist n (home e.1) (i % n) - m) =
            home e.1 + (dist n (home e.1) (i % n) - (m + 1)) + 1 := by omega
        rw [hidx] at he' hle
        obtain ⟨e'', he'', hle'⟩ := ht.sorted _ e' he' (by omega)
        exact ⟨e'', he'', by omega⟩
  obtain ⟨e', he', hle⟩ := hback (dist n (home e.1) (i % n) - j) (by omega)
  rw [show dist n (home e.1) (i % n) - (dist n (home e.1) (i % n) - j) = j by omega] at he' hle
  exact ⟨e', he', hle⟩

/-- Every key is in one bucket, and found from its home over occupied buckets. That is all a lookup
needs of a table. -/
structure Readable (n : ℕ) (home : κ → ℕ) (t : ℕ → Option (κ × β)) : Prop where
  unique : ∀ i j e e', t (i % n) = some e → t (j % n) = some e' → e.1 = e'.1 → i % n = j % n
  path : ∀ i e, t (i % n) = some e → ∀ j, j ≤ dist n (home e.1) (i % n) →
    ∃ e', t ((home e.1 + j) % n) = some e'

/-- A table in order is readable. -/
lemma Ok.readable (ht : Ok n home t) (hh : ∀ k, home k < n) : Readable n home t where
  unique := ht.unique
  path i e he j hj := by
    obtain ⟨e', he', -⟩ := ht.path hh he j hj
    exact ⟨e', he'⟩

/-- A table is readable if its buckets below `n` are. -/
lemma readable_of_lt (hn : 0 < n)
    (hu : ∀ i, i < n → ∀ j, j < n → ∀ e ∈ t i, ∀ e' ∈ t j, e.1 = e'.1 → i = j)
    (hp : ∀ i, i < n → ∀ e ∈ t i, ∀ j, j ≤ dist n (home e.1) i →
      (t ((home e.1 + j) % n)).isSome = true) : Readable n home t where
  unique i j e e' he he' heq := hu _ (Nat.mod_lt i hn) _ (Nat.mod_lt j hn) e he e' he' heq
  path i e he j hj := Option.isSome_iff_exists.mp (hp _ (Nat.mod_lt i hn) e he j hj)

/-- A table is in order if its buckets below `n` are. -/
lemma ok_of_lt (hn : 0 < n)
    (hu : ∀ i, i < n → ∀ j, j < n → ∀ e ∈ t i, ∀ e' ∈ t j, e.1 = e'.1 → i = j)
    (hs : ∀ i, i < n → ∀ e ∈ t ((i + 1) % n), dist n (home e.1) ((i + 1) % n) = 0 ∨
      (t i).any (fun e' => dist n (home e.1) ((i + 1) % n) ≤ dist n (home e'.1) i + 1) = true) :
    Ok n home t where
  sorted i e he hd := by
    rw [← Nat.mod_add_mod] at he hd ⊢
    have hprev := (hs _ (Nat.mod_lt i hn) e he).resolve_left hd
    rcases ht : t (i % n) with _ | e'
    · rw [ht] at hprev
      cases hprev
    · rw [ht, Option.any_some, decide_eq_true_eq] at hprev
      exact ⟨e', rfl, hprev⟩
  unique i j e e' he he' heq := hu _ (Nat.mod_lt i hn) _ (Nat.mod_lt j hn) e he e' he' heq

section find

variable [DecidableEq κ]

/-- A lookup returns only the key's bucket. -/
lemma mem_of_find {fuel : ℕ} (h : find n t k fuel i = some p) :
    ∃ j v, p = j % n ∧ t (j % n) = some (k, v) := by
  induction fuel generalizing i with
  | zero => cases h
  | succ fuel ih =>
      unfold find at h
      rcases hti : t (i % n) with _ | e
      · rw [hti] at h
        cases h
      · rw [hti] at h
        simp only at h
        split_ifs at h with hk
        · cases h
          exact ⟨i, e.2, rfl, by rw [hti, ← hk]⟩
        · exact ih h

/-- A lookup that meets only other keys before the key's bucket finds it. -/
lemma find_of_path {fuel : ℕ} (hd : d < fuel)
    (hpath : ∀ j, j < d → ∃ e, t ((i + j) % n) = some e ∧ e.1 ≠ k)
    (ht : t ((i + d) % n) = some (k, v)) : find n t k fuel i = some ((i + d) % n) := by
  induction d generalizing i fuel with
  | zero =>
      obtain ⟨fuel, rfl⟩ : ∃ f, fuel = f + 1 := ⟨fuel - 1, by omega⟩
      rw [Nat.add_zero] at ht
      rw [find, ht]
      simp
  | succ d ih =>
      obtain ⟨fuel, rfl⟩ : ∃ f, fuel = f + 1 := ⟨fuel - 1, by omega⟩
      obtain ⟨e, he, hne⟩ := hpath 0 (by omega)
      rw [Nat.add_zero] at he
      rw [find, he]
      simp only [if_neg hne]
      have hidx : i + (d + 1) = i + 1 + d := by omega
      rw [hidx] at ht ⊢
      refine ih (by omega) (fun j hj => ?_) ht
      have hstep := hpath (j + 1) (by omega)
      rwa [show i + (j + 1) = i + 1 + j by omega] at hstep

/-- **Lookup**: the bucket of a key is found from its home. -/
lemma find_eq_some_iff (ht : Readable n home t) (hh : ∀ k, home k < n) :
    find n t k n (home k) = some p ↔ ∃ j v, p = j % n ∧ t (j % n) = some (k, v) := by
  constructor
  · exact mem_of_find
  · rintro ⟨j, v, rfl, hj⟩
    have hd := dist_lt (h := home k) (p := j % n) (show 0 < n by have := hh k; omega)
    have hend := add_dist (hh k) j
    rw [← hend] at hj ⊢
    refine find_of_path hd (fun m hm => ?_) hj
    rw [hend] at hj
    obtain ⟨e', he'⟩ := ht.path _ _ hj m hm.le
    refine ⟨e', he', fun hk => ?_⟩
    -- the key is in one bucket only, and that is further on
    have hpos := ht.unique _ _ _ _ he' hj hk
    have hm' := dist_add (hh k) (show m < n by omega)
    simp only at hm' hpos
    rw [hpos] at hm'
    omega

/-- **A failing lookup**: nothing is found exactly when no bucket holds the key. -/
lemma find_eq_none_iff (ht : Readable n home t) (hh : ∀ k, home k < n) :
    find n t k n (home k) = none ↔ ∀ v, ¬ Mem n t (k, v) := by
  rw [← not_iff_not, ← ne_eq, Option.ne_none_iff_exists']
  constructor
  · rintro ⟨p, hp⟩ hall
    obtain ⟨j, v, -, hj⟩ := (find_eq_some_iff ht hh).mp hp
    exact hall v ⟨j, hj⟩
  · intro hne
    push Not at hne
    obtain ⟨v, j, hj⟩ := hne
    exact ⟨j % n, (find_eq_some_iff ht hh).mpr ⟨j, v, rfl, hj⟩⟩

end find

/-- A table with fewer entries than buckets has an empty bucket. -/
lemma exists_empty
    (hu : ∀ i j e e', t (i % n) = some e → t (j % n) = some e' → e.1 = e'.1 → i % n = j % n)
    (l : List (κ × β)) (hl : ∀ e, Mem n t e → e ∈ l) (hlen : l.length < n) :
    ∃ p, p < n ∧ t p = none := by
  classical
  by_contra hall
  push Not at hall
  have hsome : ∀ p : Fin n, ∃ e, t (p.1 % n) = some e := fun p => by
    rw [Nat.mod_eq_of_lt p.2]
    exact Option.ne_none_iff_exists'.mp (hall p.1 p.2)
  choose f hf using hsome
  have hinj : Function.Injective f := by
    intro p q hpq
    have hmod := hu p.1 q.1 _ _ (hf p) (hf q) (by rw [hpq])
    rw [Nat.mod_eq_of_lt p.2, Nat.mod_eq_of_lt q.2] at hmod
    exact Fin.ext hmod
  have hsub : Finset.univ.image f ⊆ l.toFinset := by
    intro e he
    obtain ⟨p, -, rfl⟩ := Finset.mem_image.mp he
    exact List.mem_toFinset.mpr (hl _ ⟨p.1, hf p⟩)
  have hcard := Finset.card_le_card hsub
  rw [Finset.card_image_of_injective _ hinj, Finset.card_univ, Fintype.card_fin] at hcard
  have hle := l.toFinset_card_le
  omega

/-! ### Deletion -/

/-- The number of occupied buckets. -/
def occupied (n : ℕ) (t : ℕ → Option (κ × β)) : ℕ :=
  ((Finset.range n).filter fun p => (t p).isSome = true).card

/-- A table has no more keys than occupied buckets. -/
lemma length_le_occupied (hn : 0 < n) {ks : List κ} (hnd : ks.Nodup)
    (hks : ∀ k ∈ ks, ∃ v, Mem n t (k, v)) : ks.length ≤ occupied n t := by
  classical
  have hbucket : ∀ k, ∃ p, k ∈ ks → p < n ∧ ∃ v, t p = some (k, v) := by
    intro k
    by_cases hk : k ∈ ks
    · obtain ⟨v, i, hi⟩ := hks k hk
      exact ⟨i % n, fun _ => ⟨Nat.mod_lt _ hn, v, hi⟩⟩
    · exact ⟨0, fun h => absurd h hk⟩
  choose f hf using hbucket
  have hinj : ∀ k ∈ ks, ∀ k' ∈ ks, f k = f k' → k = k' := by
    intro k hk k' hk' heq
    obtain ⟨-, v, hv⟩ := hf k hk
    obtain ⟨-, v', hv'⟩ := hf k' hk'
    rw [heq, hv'] at hv
    cases hv
    rfl
  have hsub : (ks.map f).toFinset ⊆ (Finset.range n).filter fun p => (t p).isSome = true := by
    intro p hp
    obtain ⟨k, hk, rfl⟩ := List.mem_map.mp (List.mem_toFinset.mp hp)
    obtain ⟨hlt, v, hv⟩ := hf k hk
    exact Finset.mem_filter.mpr ⟨Finset.mem_range.mpr hlt, by rw [hv]; rfl⟩
  have hcard := Finset.card_le_card hsub
  rwa [List.toFinset_card_of_nodup (hnd.map_on hinj), List.length_map] at hcard

/-- At most `n` buckets are occupied. -/
lemma occupied_le (n : ℕ) (t : ℕ → Option (κ × β)) : occupied n t ≤ n :=
  (Finset.card_filter_le _ _).trans (Finset.card_range n).le

/-- The number of occupied buckets depends on the buckets alone. -/
lemma occupied_congr {t' : ℕ → Option (κ × β)} (h : ∀ p, p < n → t' p = t p) :
    occupied n t' = occupied n t := by
  unfold occupied
  refine congrArg Finset.card (Finset.filter_congr fun p hp => ?_)
  rw [h p (Finset.mem_range.mp hp)]

/-- A bucket written over. -/
lemma occupied_update_of_some (hp : (t p).isSome = true) (c : κ × β) :
    occupied n (Function.update t p (some c)) = occupied n t := by
  unfold occupied
  refine congrArg Finset.card (Finset.filter_congr fun q _ => ?_)
  by_cases hq : q = p
  · subst hq
    rw [Function.update_self, hp]
    simp
  · rw [Function.update_of_ne hq]

/-- An empty bucket filled. -/
lemma occupied_update_of_none (hp : p < n) (hnone : t p = none) (c : κ × β) :
    occupied n (Function.update t p (some c)) = occupied n t + 1 := by
  classical
  have hset : ((Finset.range n).filter fun q => (Function.update t p (some c) q).isSome = true) =
      insert p ((Finset.range n).filter fun q => (t q).isSome = true) := by
    ext q
    rw [Finset.mem_insert, Finset.mem_filter, Finset.mem_filter]
    by_cases hq : q = p
    · subst hq
      rw [Function.update_self]
      simp [hp]
    · rw [Function.update_of_ne hq]
      simp [hq]
  unfold occupied
  rw [hset, Finset.card_insert_of_notMem]
  simp [hnone]

/-- Indices of one bucket have their successors in one bucket. -/
lemma succ_mod_congr (h : i % n = j % n) : (i + 1) % n = (j + 1) % n := Nat.ModEq.add_right 1 h

/-- An entry moved one bucket back, over another entry, leaves the order. -/
lemma Sorted.move_back (hs : Sorted n home t) (hh : ∀ k, home k < n) (hp : p < n)
    (he : t ((p + 1) % n) = some e) (hd : dist n (home e.1) ((p + 1) % n) ≠ 0) :
    Sorted n home (Function.update t p (some e)) := by
  have hpp : p % n = p := Nat.mod_eq_of_lt hp
  have hstep := dist_succ (hh e.1) p
  rw [hpp] at hstep
  have hback : dist n (home e.1) ((p + 1) % n) = dist n (home e.1) p + 1 := by
    split_ifs at hstep with hwrap
    · exact absurd hstep hd
    · exact hstep
  obtain ⟨y, hy, hle⟩ := hs p e he hd
  rw [hpp] at hy hle
  intro i x hx hxd
  by_cases hr : (i + 1) % n = p
  · rw [hr, Function.update_self] at hx
    cases hx
    rw [hr] at hxd ⊢
    obtain ⟨e', he', hle'⟩ := hs i y (by rw [hr]; exact hy) (by rw [hr]; omega)
    rw [hr] at hle'
    have hq : i % n ≠ p := by
      intro hq
      have hself : (p + 1) % n = p := (succ_mod_congr (hq.trans hpp.symm)).symm.trans hr
      rw [hself] at hback
      omega
    exact ⟨e', by rw [Function.update_of_ne hq]; exact he', by omega⟩
  · rw [Function.update_of_ne hr] at hx
    by_cases hq : i % n = p
    · have hnext : (i + 1) % n = (p + 1) % n := succ_mod_congr (hq.trans hpp.symm)
      rw [hnext, he] at hx
      cases hx
      exact ⟨e, by rw [hq, Function.update_self], by rw [hnext, hq]; omega⟩
    · obtain ⟨e', he', hle'⟩ := hs i x hx hxd
      exact ⟨e', by rw [Function.update_of_ne hq]; exact he', hle'⟩

/-- A bucket whose successor does not depend on it can be cleared. -/
lemma Sorted.clear (hs : Sorted n home t) (hp : p < n)
    (hstop : ∀ e, t ((p + 1) % n) = some e → dist n (home e.1) ((p + 1) % n) = 0) :
    Sorted n home (Function.update t p none) := by
  intro i x hx hxd
  by_cases hr : (i + 1) % n = p
  · rw [hr, Function.update_self] at hx
    cases hx
  · rw [Function.update_of_ne hr] at hx
    by_cases hq : i % n = p
    · have hnext : (i + 1) % n = (p + 1) % n :=
        succ_mod_congr (hq.trans (Nat.mod_eq_of_lt hp).symm)
      rw [hnext] at hx hxd
      exact absurd (hstop x hx) hxd
    · obtain ⟨e', he', hle⟩ := hs i x hx hxd
      exact ⟨e', by rw [Function.update_of_ne hq]; exact he', hle⟩

/-- No key is twice outside bucket `p`. -/
def UniqueOff (n p : ℕ) (t : ℕ → Option (κ × β)) : Prop :=
  ∀ i j e e', i % n ≠ p → j % n ≠ p → t (i % n) = some e → t (j % n) = some e' → e.1 = e'.1 →
    i % n = j % n

/-- **Deletion**: a shift from bucket `p` leaves the entries of the other buckets. -/
lemma shift_spec {fuel : ℕ} {t' : ℕ → Option (κ × β)} (hs : Sorted n home t)
    (hh : ∀ k, home k < n) (hp : p < n) (hu : UniqueOff n p t)
    (h : shift n home fuel p t = some t') :
    Ok n home t' ∧ ∀ e, Mem n t' e ↔ ∃ i, i % n ≠ p ∧ t (i % n) = some e := by
  induction fuel generalizing p t with
  | zero => cases h
  | succ fuel ih =>
      have hclear : (∀ e, t ((p + 1) % n) = some e → dist n (home e.1) ((p + 1) % n) = 0) →
          Ok n home (Function.update t p none) ∧
          ∀ e, Mem n (Function.update t p none) e ↔ ∃ i, i % n ≠ p ∧ t (i % n) = some e := by
        intro hstop
        have hne : ∀ i x, Function.update t p none (i % n) = some x → i % n ≠ p := by
          intro i x hx hi
          rw [hi, Function.update_self] at hx
          cases hx
        refine ⟨⟨hs.clear hp hstop, ?_⟩, ?_⟩
        · intro i j x y hx hy
          have hi := hne i x hx
          have hj := hne j y hy
          rw [Function.update_of_ne hi] at hx
          rw [Function.update_of_ne hj] at hy
          exact hu i j x y hi hj hx hy
        · intro x
          constructor
          · rintro ⟨i, hi⟩
            have hip := hne i x hi
            rw [Function.update_of_ne hip] at hi
            exact ⟨i, hip, hi⟩
          · rintro ⟨i, hip, hi⟩
            exact ⟨i, by rw [Function.update_of_ne hip]; exact hi⟩
      unfold shift at h
      rcases he : t ((p + 1) % n) with _ | e
      · rw [he] at h
        cases h
        refine hclear fun e hx => ?_
        rw [he] at hx
        cases hx
      · rw [he] at h
        simp only at h
        split_ifs at h with hd
        · cases h
          refine hclear fun x hx => ?_
          rw [he] at hx
          cases hx
          exact hd
        · -- the hole is one bucket further on; bucket `p` now has what was there
          have hn : 0 < n := by omega
          have hpn : (p + 1) % n ≠ p := by
            intro hself
            have hone := dist_succ (hh e.1) p
            rw [Nat.mod_eq_of_lt hp, hself] at hone
            have hlt := dist_lt (h := home e.1) (p := p) hn
            split_ifs at hone with hw
            · rw [hself] at hd
              exact hd hone
            · omega
          have hread : ∀ i x, i % n ≠ (p + 1) % n → Function.update t p (some e) (i % n) = some x →
              ∃ i', i' % n ≠ p ∧ t (i' % n) = some x ∧
                i' % n = if i % n = p then (p + 1) % n else i % n := by
            intro i x hi hx
            by_cases hip : i % n = p
            · rw [hip, Function.update_self] at hx
              cases hx
              exact ⟨p + 1, hpn, he, by rw [if_pos hip]⟩
            · rw [Function.update_of_ne hip] at hx
              exact ⟨i, hip, hx, by rw [if_neg hip]⟩
          have hu' : UniqueOff n ((p + 1) % n) (Function.update t p (some e)) := by
            intro i j x y hi hj hx hy hxy
            obtain ⟨i', hi', hx', hieq⟩ := hread i x hi hx
            obtain ⟨j', hj', hy', hjeq⟩ := hread j y hj hy
            have heq := hu i' j' x y hi' hj' hx' hy' hxy
            rw [hieq, hjeq] at heq
            by_cases hip : i % n = p
            · by_cases hjp : j % n = p
              · rw [hip, hjp]
              · rw [if_pos hip, if_neg hjp] at heq
                exact absurd heq.symm hj
            · by_cases hjp : j % n = p
              · rw [if_neg hip, if_pos hjp] at heq
                exact absurd heq hi
              · rwa [if_neg hip, if_neg hjp] at heq
          obtain ⟨hok, hmem⟩ := ih (hs.move_back hh hp he hd) (Nat.mod_lt _ hn) hu' h
          refine ⟨hok, fun x => (hmem x).trans ?_⟩
          constructor
          · rintro ⟨i, hi, hx⟩
            obtain ⟨i', hi', hx', -⟩ := hread i x hi hx
            exact ⟨i', hi', hx'⟩
          · rintro ⟨i, hi, hx⟩
            by_cases hin : i % n = (p + 1) % n
            · rw [hin, he] at hx
              refine ⟨p, by rw [Nat.mod_eq_of_lt hp]; exact hpn.symm, ?_⟩
              rw [Nat.mod_eq_of_lt hp, Function.update_self]
              exact hx
            · exact ⟨i, hin, by rw [Function.update_of_ne hi]; exact hx⟩

section congr

variable {t' : ℕ → Option (κ × β)} (ht : ∀ q, q < n → t' q = t q)

include ht

/-- A lookup depends on the buckets alone. -/
lemma find_congr [DecidableEq κ] (hn : 0 < n) (k : κ) (fuel i : ℕ) :
    find n t' k fuel i = find n t k fuel i := by
  induction fuel generalizing i with
  | zero => rfl
  | succ fuel ih =>
      unfold find
      rw [ht _ (Nat.mod_lt i hn), ih]

/-- A shift reads and writes buckets below the capacity. -/
lemma shift_congr (hn : 0 < n) (home : κ → ℕ) (fuel p : ℕ) :
    (shift n home fuel p t' = none ∧ shift n home fuel p t = none) ∨
      ∃ u' u, shift n home fuel p t' = some u' ∧ shift n home fuel p t = some u ∧
        ∀ q, q < n → u' q = u q := by
  induction fuel generalizing p t t' with
  | zero => exact .inl ⟨rfl, rfl⟩
  | succ fuel ih =>
      have hupdate : ∀ c, ∀ q, q < n → Function.update t' p c q = Function.update t p c q := by
        intro c q hq
        rw [Function.update_apply, Function.update_apply, ht q hq]
      unfold shift
      rw [ht _ (Nat.mod_lt (p + 1) hn)]
      rcases t ((p + 1) % n) with _ | e
      · exact .inr ⟨_, _, rfl, rfl, hupdate none⟩
      · simp only
        split_ifs
        · exact .inr ⟨_, _, rfl, rfl, hupdate none⟩
        · exact ih (hupdate (some e)) _

/-- A deletion depends on the buckets alone. -/
lemma delete_congr [DecidableEq κ] (hn : 0 < n) (k : κ) (q : ℕ) (hq : q < n) :
    delete n home k t' q = delete n home k t q := by
  unfold delete
  rw [find_congr ht hn]
  rcases find n t k n (home k) with _ | p
  · exact ht q hq
  · simp only
    rcases shift_congr ht hn home (n * n + 1) p with ⟨h', h⟩ | ⟨u', u, h', h, hu⟩
    · rw [h', h]
      exact ht q hq
    · rw [h', h]
      exact hu q hq

/-- The list of entries depends on the buckets alone. -/
lemma entries_congr : entries n t' = entries n t :=
  List.filterMap_congr fun q hq => ht q (List.mem_range.mp hq)

end congr

/-- How far a bucket's entry is from its home. -/
def reach (n : ℕ) (home : κ → ℕ) (t : ℕ → Option (κ × β)) (p : ℕ) : ℕ :=
  match t p with
  | none => 0
  | some e => dist n (home e.1) p

/-- How far the entries outside bucket `p` are from their homes, together. -/
def reachOff (n : ℕ) (home : κ → ℕ) (t : ℕ → Option (κ × β)) (p : ℕ) : ℕ :=
  ∑ q ∈ (Finset.range n).erase p, reach n home t q

/-- Every step of a shift brings an entry one bucket closer to its home. -/
lemma reachOff_step (hh : ∀ k, home k < n) (hp : p < n) (he : t ((p + 1) % n) = some e)
    (hd : dist n (home e.1) ((p + 1) % n) ≠ 0) :
    reachOff n home (Function.update t p (some e)) ((p + 1) % n) + 1 = reachOff n home t p := by
  have hn : 0 < n := by omega
  have hq : (p + 1) % n < n := Nat.mod_lt _ hn
  have hback := dist_succ (hh e.1) p
  rw [Nat.mod_eq_of_lt hp] at hback
  have hdist : dist n (home e.1) ((p + 1) % n) = dist n (home e.1) p + 1 := by
    split_ifs at hback with hwrap
    · exact absurd hback hd
    · exact hback
  have hpn : (p + 1) % n ≠ p := by
    intro hself
    rw [hself] at hdist
    omega
  have hmem : (p + 1) % n ∈ (Finset.range n).erase p :=
    Finset.mem_erase.mpr ⟨hpn, Finset.mem_range.mpr hq⟩
  have hmem' : p ∈ (Finset.range n).erase ((p + 1) % n) :=
    Finset.mem_erase.mpr ⟨hpn.symm, Finset.mem_range.mpr hp⟩
  have hrest : ∑ q ∈ ((Finset.range n).erase ((p + 1) % n)).erase p,
      reach n home (Function.update t p (some e)) q =
      ∑ q ∈ ((Finset.range n).erase p).erase ((p + 1) % n), reach n home t q := by
    rw [Finset.erase_right_comm]
    refine Finset.sum_congr rfl fun q hq => ?_
    have hqp : q ≠ p := Finset.ne_of_mem_erase (Finset.mem_of_mem_erase hq)
    unfold reach
    rw [Function.update_of_ne hqp]
  unfold reachOff
  rw [← Finset.add_sum_erase _ _ hmem, ← Finset.add_sum_erase _ _ hmem', hrest]
  have h₁ : reach n home t ((p + 1) % n) = dist n (home e.1) p + 1 := by
    unfold reach
    rw [he]
    exact hdist
  have h₂ : reach n home (Function.update t p (some e)) p = dist n (home e.1) p := by
    unfold reach
    rw [Function.update_self]
  rw [h₁, h₂]
  omega

/-- A shift comes to its end. -/
lemma shift_isSome (hh : ∀ k, home k < n) {fuel : ℕ} (hp : p < n)
    (hfuel : reachOff n home t p < fuel) : ∃ t', shift n home fuel p t = some t' := by
  induction fuel generalizing p t with
  | zero => omega
  | succ fuel ih =>
      unfold shift
      rcases he : t ((p + 1) % n) with _ | e
      · exact ⟨_, rfl⟩
      · simp only
        split_ifs with hd
        · exact ⟨_, rfl⟩
        · have hstep := reachOff_step hh hp he hd
          exact ih (Nat.mod_lt _ (by omega)) (by omega)

/-- The sum of the distances of the first buckets is at most `n * n`. -/
lemma reachOff_le (hn : 0 < n) (t : ℕ → Option (κ × β)) (p : ℕ) :
    reachOff n home t p ≤ n * n := by
  have hle : ∀ q ∈ (Finset.range n).erase p, reach n home t q ≤ n := by
    intro q _
    unfold reach
    split
    · omega
    · exact (dist_lt hn).le
  calc reachOff n home t p ≤ ((Finset.range n).erase p).card • n := Finset.sum_le_card_nsmul _ _ _ hle
    _ ≤ n * n := by
      rw [smul_eq_mul]
      refine Nat.mul_le_mul_right n ?_
      simpa using Finset.card_erase_le (s := Finset.range n) (a := p)

/-! ### Insertion -/

/-- The entry `c` can stand in bucket `p`: it is at home there, or the bucket before is occupied and
at most one closer to its own home. -/
def Fits (n : ℕ) (home : κ → ℕ) (t : ℕ → Option (κ × β)) (p : ℕ) (c : κ × β) : Prop :=
  ∀ i, (i + 1) % n = p → dist n (home c.1) p ≠ 0 →
    ∃ e, t (i % n) = some e ∧ dist n (home c.1) p ≤ dist n (home e.1) (i % n) + 1

variable {c : κ × β}

/-- A key fits at its own home. -/
lemma fits_home (hh : ∀ k, home k < n) (t : ℕ → Option (κ × β)) (c : κ × β) :
    Fits n home t (home c.1 % n) c := by
  intro i _ hd
  have hself := dist_add (hh c.1) (show 0 < n by have := hh c.1; omega)
  rw [Nat.add_zero] at hself
  exact absurd hself hd

/-- One bucket has one bucket before it. -/
lemma pred_mod (h : (i + 1) % n = (j + 1) % n) : i % n = j % n :=
  Nat.ModEq.add_right_cancel' 1 h

/-- Past an entry that is as far from its home, the carried one still fits. -/
lemma fits_skip (hh : ∀ k, home k < n) (he : t (i % n) = some e)
    (hle : dist n (home c.1) (i % n) ≤ dist n (home e.1) (i % n)) :
    Fits n home t ((i + 1) % n) c := by
  intro j hj hd
  have hji : j % n = i % n := pred_mod hj
  have hstep := dist_succ (hh c.1) i
  refine ⟨e, by rw [hji]; exact he, ?_⟩
  rw [hji]
  split_ifs at hstep
  · exact absurd hstep hd
  · omega

/-- The entry that is displaced fits in the next bucket. -/
lemma fits_displaced (hh : ∀ k, home k < n)
    (hlt : dist n (home e.1) (i % n) < dist n (home c.1) (i % n)) :
    Fits n home (Function.update t (i % n) (some c)) ((i + 1) % n) e := by
  intro j hj hd
  have hji : j % n = i % n := pred_mod hj
  have hstep := dist_succ (hh e.1) i
  refine ⟨c, by rw [hji, Function.update_self], ?_⟩
  rw [hji]
  split_ifs at hstep
  · exact absurd hstep hd
  · omega

/-- An entry placed where it fits, over one that is closer to its home or over none, leaves the
order. -/
lemma Sorted.place (hs : Sorted n home t) (hn : 0 < n) (hfit : Fits n home t (i % n) c)
    (hcur : ∀ e, t (i % n) = some e → dist n (home e.1) (i % n) ≤ dist n (home c.1) (i % n)) :
    Sorted n home (Function.update t (i % n) (some c)) := by
  intro j x hx hxd
  by_cases hr : (j + 1) % n = i % n
  · rw [hr, Function.update_self] at hx
    cases hx
    rw [hr] at hxd ⊢
    obtain ⟨e, he, hle⟩ := hfit j hr hxd
    have hq : j % n ≠ i % n := by
      intro hq
      have hlt := Nat.mod_lt j hn
      have hlt' := dist_lt (h := home c.1) (p := i % n) hn
      have hsucc := succ_mod hn j
      rw [hr, ← hq] at hsucc
      split_ifs at hsucc
      · omega
      · omega
    exact ⟨e, by rw [Function.update_of_ne hq]; exact he, hle⟩
  · rw [Function.update_of_ne hr] at hx
    obtain ⟨e, he, hle⟩ := hs j x hx hxd
    by_cases hq : j % n = i % n
    · rw [hq] at he hle ⊢
      exact ⟨c, Function.update_self .., by have := hcur e he; omega⟩
    · exact ⟨e, by rw [Function.update_of_ne hq]; exact he, hle⟩

/-- The order sees only the keys. -/
lemma Sorted.revalue (hs : Sorted n home t) {w : β} (he : t (i % n) = some (k, w)) :
    Sorted n home (Function.update t (i % n) (some (k, v))) := by
  have hread : ∀ j x, Function.update t (i % n) (some (k, v)) (j % n) = some x →
      ∃ y, t (j % n) = some y ∧ y.1 = x.1 := by
    intro j x hx
    by_cases hj : j % n = i % n
    · rw [hj, Function.update_self] at hx
      cases hx
      exact ⟨(k, w), by rw [hj]; exact he, rfl⟩
    · rw [Function.update_of_ne hj] at hx
      exact ⟨x, hx, rfl⟩
  intro j x hx hxd
  obtain ⟨y, hy, hkey⟩ := hread (j + 1) x hx
  rw [← hkey] at hxd ⊢
  obtain ⟨e, hte, hle⟩ := hs j y hy hxd
  by_cases hj : j % n = i % n
  · rw [hj] at hte hle ⊢
    rw [he] at hte
    cases hte
    exact ⟨(k, v), Function.update_self .., hle⟩
  · exact ⟨e, by rw [Function.update_of_ne hj]; exact hte, hle⟩

/-- No key is twice in the table. -/
def Unique (n : ℕ) (t : ℕ → Option (κ × β)) : Prop :=
  ∀ i j e e', t (i % n) = some e → t (j % n) = some e' → e.1 = e'.1 → i % n = j % n

/-- The entries after one was placed over another. -/
lemma mem_place (hu : Unique n t) (he : t (i % n) = some e) (hc : ∀ x, Mem n t x → x.1 ≠ c.1)
    (x : κ × β) :
    Mem n (Function.update t (i % n) (some c)) x ↔ (Mem n t x ∧ x ≠ e) ∨ x = c := by
  constructor
  · rintro ⟨j, hj⟩
    by_cases hji : j % n = i % n
    · rw [hji, Function.update_self] at hj
      exact .inr (Option.some.inj hj).symm
    · rw [Function.update_of_ne hji] at hj
      refine .inl ⟨⟨j, hj⟩, ?_⟩
      rintro rfl
      exact hji (hu j i x x hj he rfl)
  · rintro (⟨⟨j, hj⟩, hne⟩ | rfl)
    · have hji : j % n ≠ i % n := by
        intro hji
        rw [hji, he] at hj
        exact hne (Option.some.inj hj).symm
      exact ⟨j, by rw [Function.update_of_ne hji]; exact hj⟩
    · exact ⟨i, Function.update_self ..⟩

/-- The entries after one was placed in an empty bucket. -/
lemma mem_fill (he : t (i % n) = none) (x : κ × β) :
    Mem n (Function.update t (i % n) (some c)) x ↔ Mem n t x ∨ x = c := by
  constructor
  · rintro ⟨j, hj⟩
    by_cases hji : j % n = i % n
    · rw [hji, Function.update_self] at hj
      exact .inr (Option.some.inj hj).symm
    · rw [Function.update_of_ne hji] at hj
      exact .inl ⟨j, hj⟩
  · rintro (⟨j, hj⟩ | rfl)
    · have hji : j % n ≠ i % n := by
        intro hji
        rw [hji, he] at hj
        cases hj
      exact ⟨j, by rw [Function.update_of_ne hji]; exact hj⟩
    · exact ⟨i, Function.update_self ..⟩

/-- A new key is in one bucket only, wherever it is placed. -/
lemma Unique.place (hu : Unique n t) (hc : ∀ x, Mem n t x → x.1 ≠ c.1) :
    Unique n (Function.update t (i % n) (some c)) := by
  intro j j' x y hx hy hxy
  by_cases hj : j % n = i % n
  · by_cases hj' : j' % n = i % n
    · rw [hj, hj']
    · rw [hj, Function.update_self] at hx
      rw [Function.update_of_ne hj'] at hy
      cases hx
      exact absurd hxy.symm (hc y ⟨j', hy⟩)
  · by_cases hj' : j' % n = i % n
    · rw [hj', Function.update_self] at hy
      rw [Function.update_of_ne hj] at hx
      cases hy
      exact absurd hxy (hc x ⟨j, hx⟩)
    · rw [Function.update_of_ne hj] at hx
      rw [Function.update_of_ne hj'] at hy
      exact hu j j' x y hx hy hxy

/-- The entries after a value was overwritten. -/
lemma mem_revalue {w : β} (hu : Unique n t) (hj : t (j % n) = some (k, w)) (e : κ × β) :
    Mem n (Function.update t (j % n) (some (k, v))) e ↔ (Mem n t e ∧ e.1 ≠ k) ∨ e = (k, v) := by
  constructor
  · rintro ⟨i, hi⟩
    by_cases hij : i % n = j % n
    · rw [hij, Function.update_self] at hi
      exact .inr (Option.some.inj hi).symm
    · rw [Function.update_of_ne hij] at hi
      exact .inl ⟨⟨i, hi⟩, fun hk => hij (hu i j e (k, w) hi hj hk)⟩
  · rintro (⟨⟨i, hi⟩, hk⟩ | rfl)
    · have hij : i % n ≠ j % n := by
        intro hij
        rw [hij, hj] at hi
        cases hi
        exact hk rfl
      exact ⟨i, by rw [Function.update_of_ne hij]; exact hi⟩
    · exact ⟨j, Function.update_self ..⟩

/-- A new value leaves the keys unique. -/
lemma Unique.revalue {w : β} (hu : Unique n t) (hj : t (j % n) = some (k, w)) :
    Unique n (Function.update t (j % n) (some (k, v))) := by
  have hread : ∀ i x, Function.update t (j % n) (some (k, v)) (i % n) = some x →
      ∃ y, t (i % n) = some y ∧ y.1 = x.1 := by
    intro i x hx
    by_cases hi : i % n = j % n
    · rw [hi, Function.update_self] at hx
      cases hx
      exact ⟨(k, w), by rw [hi]; exact hj, rfl⟩
    · rw [Function.update_of_ne hi] at hx
      exact ⟨x, hx, rfl⟩
  intro i i' x x' hx hx' hkey
  obtain ⟨y, hy, hyx⟩ := hread i x hx
  obtain ⟨y', hy', hyx'⟩ := hread i' x' hx'
  exact hu i i' y y' hy hy' (hyx.trans (hkey.trans hyx'.symm))

section put

variable [DecidableEq κ]

/-- **Insertion** of a new key, from any index on and with any entry `c` to be placed: with the
outcome `added` the table has its entries and `c`, otherwise one of these was dropped. -/
lemma put_carries (fuel : ℕ) (hh : ∀ k, home k < n) (hs : Sorted n home t) (hu : Unique n t)
    (hfit : Fits n home t (i % n) c) (hc : ∀ x, Mem n t x → x.1 ≠ c.1)
    (hk : c = (k, v) ∨ (Mem n t (k, v) ∧ c.1 ≠ k)) :
    let r := put n home k v fuel i c t
    Ok n home r.2 ∧
      ∃ x, (r.1 = .added ∧ ∀ e, Mem n r.2 e ↔ Mem n t e ∨ e = c) ∨
        (r.1 ≠ .added ∧ (x = c ∨ Mem n t x) ∧ (c.1 ≠ k → x.1 ≠ k) ∧ (x.1 = k → r.2 = t) ∧
          ∀ e, Mem n r.2 e ↔ (Mem n t e ∨ e = c) ∧ e ≠ x) := by
  have hdrop : ∀ e, Mem n t e ↔ (Mem n t e ∨ e = c) ∧ e ≠ c := by
    intro e
    constructor
    · intro he
      exact ⟨.inl he, fun heq => hc e he (by rw [heq])⟩
    · rintro ⟨he | he, hne⟩
      · exact he
      · exact absurd he hne
  have hsame : Ok n home t ∧ (c = c ∨ Mem n t c) ∧ (c.1 ≠ k → c.1 ≠ k) ∧ (c.1 = k → t = t) ∧
      ∀ e, Mem n t e ↔ (Mem n t e ∨ e = c) ∧ e ≠ c :=
    ⟨⟨hs, hu⟩, .inl rfl, id, fun _ => rfl, hdrop⟩
  induction fuel generalizing i c t with
  | zero => exact ⟨hsame.1, c, .inr ⟨by simp [put], hsame.2⟩⟩
  | succ fuel ih =>
      have hn : 0 < n := by have := hh k; omega
      unfold put
      by_cases hb : home c.1 + n ≤ i
      · rw [if_pos hb]
        exact ⟨hsame.1, c, .inr ⟨by simp, hsame.2⟩⟩
      rw [if_neg hb]
      rcases he : t (i % n) with _ | e
      · refine ⟨⟨hs.place hn hfit ?_, hu.place hc⟩, c, .inl ⟨rfl, mem_fill he⟩⟩
        intro e hx
        rw [he] at hx
        cases hx
      · simp only
        by_cases hek : e.1 = k
        · rw [if_pos hek]
          -- the key met is the one placed before
          rcases hk with rfl | ⟨hmem, hne⟩
          · exact absurd hek (hc e ⟨i, he⟩)
          · obtain ⟨j, hj⟩ := hmem
            have hji : j % n = i % n := hu j i _ _ hj he hek.symm
            have hkeep : Function.update t (i % n) (some (k, v)) = t := by
              rw [← hji, ← hj, Function.update_eq_self]
            rw [hkeep]
            exact ⟨hsame.1, c, .inr ⟨by simp, hsame.2⟩⟩
        · rw [if_neg hek]
          by_cases hlt : dist n (home e.1) (i % n) < dist n (home c.1) (i % n)
          · rw [if_pos hlt]
            have hmem := mem_place hu he hc
            have hc' : ∀ x, Mem n (Function.update t (i % n) (some c)) x → x.1 ≠ e.1 := by
              intro x hx
              rcases (hmem x).mp hx with ⟨⟨j, hj⟩, hne⟩ | rfl
              · intro heq
                have hji := hu j i x e hj he heq
                rw [hji, he] at hj
                exact hne (Option.some.inj hj).symm
              · exact fun heq => hc e ⟨i, he⟩ heq.symm
            have hk' : e = (k, v) ∨ (Mem n (Function.update t (i % n) (some c)) (k, v) ∧ e.1 ≠ k) := by
              refine .inr ⟨(hmem _).mpr ?_, hek⟩
              rcases hk with rfl | ⟨hkt, -⟩
              · exact .inr rfl
              · exact .inl ⟨hkt, fun heq => hek (by rw [← heq])⟩
            have hset : ∀ x, (Mem n (Function.update t (i % n) (some c)) x ∨ x = e) ↔
                (Mem n t x ∨ x = c) := by
              intro x
              rw [hmem]
              constructor
              · rintro ((⟨hx, -⟩ | hx) | rfl)
                · exact .inl hx
                · exact .inr hx
                · exact .inl ⟨i, he⟩
              · rintro (hx | hx)
                · by_cases hxe : x = e
                  · exact .inr hxe
                  · exact .inl (.inl ⟨hx, hxe⟩)
                · exact .inl (.inr hx)
            have hs' := hs.place hn hfit fun e' he' => by
              rw [he] at he'
              cases he'
              exact hlt.le
            have hu' : Unique n (Function.update t (i % n) (some c)) := hu.place hc
            have hdrop' : ∀ x, Mem n (Function.update t (i % n) (some c)) x ↔
                (Mem n (Function.update t (i % n) (some c)) x ∨ x = e) ∧ x ≠ e := by
              intro x
              constructor
              · intro hx
                exact ⟨.inl hx, fun heq => hc' x hx (by rw [heq])⟩
              · rintro ⟨hx | hx, hne⟩
                · exact hx
                · exact absurd hx hne
            obtain ⟨hok, x, hres⟩ := ih hs' hu' (fits_displaced hh hlt) hc' hk' hdrop'
              ⟨⟨hs', hu'⟩, .inl rfl, id, fun _ => rfl, hdrop'⟩
            refine ⟨hok, x, ?_⟩
            rcases hres with ⟨hadd, hall⟩ | ⟨hadd, hx, hxk, -, hall⟩
            · exact .inl ⟨hadd, fun y => (hall y).trans (hset y)⟩
            · -- what is dropped after a displacement is not the new key
              refine .inr ⟨hadd, ((hset x).mp hx.symm).symm, fun _ => hxk hek,
                fun heq => absurd heq (hxk hek), fun y => ?_⟩
              exact (hall y).trans (and_congr_left' (hset y))
          · rw [if_neg hlt]
            exact ih hs hu (fits_skip hh he (by omega)) hc hk hdrop hsame

/-- An insertion that meets only other keys, none of them closer to its home, before the key's
bucket overwrites it. -/
lemma put_of_path {fuel : ℕ} {w : β} (hd : d < fuel) (hb : i + d < home k + n)
    (hpath : ∀ j, j < d → ∃ e, t ((i + j) % n) = some e ∧ e.1 ≠ k ∧
      dist n (home k) ((i + j) % n) ≤ dist n (home e.1) ((i + j) % n))
    (ht : t ((i + d) % n) = some (k, w)) :
    put n home k v fuel i (k, v) t =
      (.updated, Function.update t ((i + d) % n) (some (k, v))) := by
  induction d generalizing i fuel with
  | zero =>
      obtain ⟨fuel, rfl⟩ : ∃ f, fuel = f + 1 := ⟨fuel - 1, by omega⟩
      rw [Nat.add_zero] at ht hb ⊢
      rw [put, if_neg (by simp only; omega), ht]
      simp
  | succ d ih =>
      obtain ⟨fuel, rfl⟩ : ∃ f, fuel = f + 1 := ⟨fuel - 1, by omega⟩
      obtain ⟨e, he, hne, hle⟩ := hpath 0 (by omega)
      rw [Nat.add_zero] at he hle
      rw [put, if_neg (by simp only; omega), he]
      simp only [if_neg hne, if_neg (not_lt.mpr hle)]
      have hidx : i + (d + 1) = i + 1 + d := by omega
      rw [hidx] at ht hb ⊢
      refine ih (by omega) hb (fun j hj => ?_) ht
      have hstep := hpath (j + 1) (by omega)
      rwa [show i + (j + 1) = i + 1 + j by omega] at hstep

/-- **Insertion of a key that is in the table** overwrites its value. -/
lemma put_of_mem {fuel : ℕ} {w : β} (ht : Ok n home t) (hh : ∀ k, home k < n) (hfuel : n ≤ fuel)
    (hj : t (j % n) = some (k, w)) :
    put n home k v fuel (home k) (k, v) t =
      (.updated, Function.update t (j % n) (some (k, v))) := by
  have hd := dist_lt (h := home k) (p := j % n) (show 0 < n by have := hh k; omega)
  have hend := add_dist (hh k) j
  have hput : put n home k v fuel (home k) (k, v) t = (.updated,
      Function.update t ((home k + dist n (home k) (j % n)) % n) (some (k, v))) := by
    refine put_of_path (w := w) (lt_of_lt_of_le hd hfuel) (by omega) (fun m hm => ?_)
      (by rw [hend]; exact hj)
    obtain ⟨e', he', hle⟩ := ht.path hh hj m hm.le
    have hm' := dist_add (hh k) (show m < n by omega)
    refine ⟨e', he', fun hk => ?_, ?_⟩
    · have hpos := ht.unique _ _ _ _ he' hj hk
      simp only at hm' hpos
      rw [hpos] at hm'
      omega
    · rw [hm']
      exact hle
  rw [hend] at hput
  exact hput

/-- With an empty bucket ahead, an insertion does not come round to the key it placed. -/
lemma put_ne_updated {fuel m : ℕ} (hm : i ≤ m) (hmn : m < i + n) (hempty : t (m % n) = none)
    (hnew : ∀ j e, i ≤ j → j ≤ m → t (j % n) = some e → e.1 ≠ k) :
    (put n home k v fuel i c t).1 ≠ .updated := by
  induction fuel generalizing i c t with
  | zero => simp [put]
  | succ fuel ih =>
      unfold put
      by_cases hb : home c.1 + n ≤ i
      · rw [if_pos hb]
        simp
      rw [if_neg hb]
      rcases he : t (i % n) with _ | e
      · simp
      · simp only
        have him : i ≠ m := by
          rintro rfl
          rw [he] at hempty
          cases hempty
        rw [if_neg (hnew i e le_rfl hm he)]
        split_ifs with hlt
        · have hout : ∀ j, i + 1 ≤ j → j ≤ m →
              Function.update t (i % n) (some c) (j % n) = t (j % n) := by
            intro j hj hjm
            refine Function.update_of_ne ?_ _ _
            intro heq
            have hmod : j ≡ i [MOD n] := heq
            have hdvd := (Nat.modEq_iff_dvd' (show i ≤ j by omega)).mp hmod.symm
            have hle := Nat.le_of_dvd (by omega) hdvd
            omega
          refine ih (by omega) (by omega) ?_ ?_
          · rw [hout m (by omega) le_rfl]
            exact hempty
          · intro j e' hj hjm hje
            rw [hout j hj hjm] at hje
            exact hnew j e' (by omega) hjm hje
        · exact ih (by omega) (by omega) hempty fun j e' hj hjm => hnew j e' (by omega) hjm

/-- A table that has not got a key, with an empty bucket: an insertion adds it, or drops an
entry. -/
lemma put_spec_new (fuel : ℕ) (ht : Ok n home t) (hh : ∀ k, home k < n)
    (hnew : ∀ w, ¬ Mem n t (k, w)) (hempty : t (j % n) = none) :
    let r := put n home k v fuel (home k) (k, v) t
    Ok n home r.2 ∧
      ((r.1 = .added ∧ ∀ e, Mem n r.2 e ↔ Mem n t e ∨ e = (k, v)) ∨ r.1 = .full) := by
  have hkey : ∀ x, Mem n t x → x.1 ≠ k := by
    intro x hx heq
    refine hnew x.2 ?_
    rw [← heq]
    exact hx
  have hfit : Fits n home t (home k % n) (k, v) := fits_home hh t (k, v)
  have hput := put_carries fuel (i := home k) hh ht.sorted ht.unique hfit hkey (.inl rfl)
  have hn : 0 < n := by have := hh k; omega
  have hd := dist_lt (h := home k) (p := j % n) hn
  have hne : (put n home k v fuel (home k) (k, v) t).1 ≠ .updated := by
    refine put_ne_updated (m := home k + dist n (home k) (j % n)) (by omega) (by omega) ?_ ?_
    · rw [add_dist (hh k)]
      exact hempty
    · intro j e _ _ he
      exact hkey e ⟨j, he⟩
  obtain ⟨hok, x, hres⟩ := hput
  refine ⟨hok, ?_⟩
  rcases hres with hadd | ⟨hadd, -⟩
  · exact .inl hadd
  · right
    generalize (put n home k v fuel (home k) (k, v) t).1 = o at hadd hne
    cases o with
    | added => exact absurd rfl hadd
    | updated => exact absurd rfl hne
    | full => rfl

/-- **Insertion keeps the order**, whatever its outcome. -/
lemma put_ok {fuel : ℕ} (ht : Ok n home t) (hh : ∀ k, home k < n) (hfuel : n ≤ fuel) :
    Ok n home (put n home k v fuel (home k) (k, v) t).2 := by
  by_cases hmem : ∃ w, Mem n t (k, w)
  · obtain ⟨w, j, hj⟩ := hmem
    rw [put_of_mem ht hh hfuel hj]
    exact ⟨ht.sorted.revalue hj, Unique.revalue ht.unique hj⟩
  · push Not at hmem
    have hkey : ∀ x, Mem n t x → x.1 ≠ k := by
      intro x hx heq
      refine hmem x.2 ?_
      rw [← heq]
      exact hx
    exact (put_carries fuel (i := home k) hh ht.sorted ht.unique (fits_home hh t (k, v)) hkey
      (.inl rfl)).1

/-- **Insertion is a map update** whenever the table has an empty bucket and the insertion does not
fail. -/
lemma put_spec {fuel : ℕ} (ht : Ok n home t) (hh : ∀ k, home k < n) (hfuel : n ≤ fuel)
    (hempty : t (j % n) = none) (hne : (put n home k v fuel (home k) (k, v) t).1 ≠ .full)
    (e : κ × β) :
    Mem n (put n home k v fuel (home k) (k, v) t).2 e ↔ (Mem n t e ∧ e.1 ≠ k) ∨ e = (k, v) := by
  by_cases hmem : ∃ w, Mem n t (k, w)
  · obtain ⟨w, i, hi⟩ := hmem
    rw [put_of_mem ht hh hfuel hi]
    exact mem_revalue ht.unique hi e
  · push Not at hmem
    obtain ⟨-, hres⟩ := put_spec_new fuel (v := v) ht hh hmem hempty
    rcases hres with ⟨-, hall⟩ | hfull
    · rw [hall]
      constructor
      · rintro (he | he)
        · refine .inl ⟨he, fun hk => hmem e.2 ?_⟩
          rw [← hk]
          exact he
        · exact .inr he
      · rintro (⟨he, -⟩ | he)
        · exact .inl he
        · exact .inr he
    · exact absurd hfull hne

/-- An insertion brings in no entry but its own. -/
lemma mem_of_mem_put {fuel : ℕ} (ht : Ok n home t) (hh : ∀ k, home k < n) (hfuel : n ≤ fuel)
    (he : Mem n (put n home k v fuel (home k) (k, v) t).2 e) : Mem n t e ∨ e = (k, v) := by
  by_cases hmem : ∃ w, Mem n t (k, w)
  · obtain ⟨w, i, hi⟩ := hmem
    rw [put_of_mem ht hh hfuel hi] at he
    rcases (mem_revalue ht.unique hi e).mp he with ⟨het, -⟩ | heq
    · exact .inl het
    · exact .inr heq
  · push Not at hmem
    have hkey : ∀ x, Mem n t x → x.1 ≠ k := by
      intro x hx heq
      refine hmem x.2 ?_
      rw [← heq]
      exact hx
    obtain ⟨-, x, hres⟩ := put_carries fuel (i := home k) (v := v) hh ht.sorted ht.unique
      (fits_home hh t (k, v)) hkey (.inl rfl)
    rcases hres with ⟨-, hall⟩ | ⟨-, -, -, -, hall⟩
    · exact (hall e).mp he
    · exact ((hall e).mp he).1

end put

/-! ### Insertions that fail -/

/-- From index `b + 1` on, with an entry to be placed whose home is that of bucket `b`, an entry is
carried to the index where its loop bound ends: over occupied buckets to the bucket after `b'`,
whose entry has its bound there. An entry at distance `n - 1` in between would be carried on
instead. -/
def CarriedOut (n : ℕ) (home : κ → ℕ) (t : ℕ → Option (κ × β)) (b m : ℕ) : Prop :=
  ∃ b', b ≤ b' ∧ b' < m ∧ (∀ j, b < j → j ≤ b' → t (j % n) ≠ none) ∧
    (∀ j, b ≤ j → j < b' → reach n home t (j % n) + 1 ≠ n) ∧
    ∃ e, t (b' % n) = some e ∧ home e.1 + n ≤ b' + 1

/-- The insertion of a key with home `h` displaces an entry, first at index `f`, and an entry is
then carried to the index where its loop bound ends. -/
def Overruns (n : ℕ) (home : κ → ℕ) (t : ℕ → Option (κ × β)) (h : ℕ) : Prop :=
  ∃ f, h ≤ f ∧ f < h + n ∧
    (∀ j, h ≤ j → j < f → t (j % n) ≠ none ∧ j - h ≤ reach n home t (j % n)) ∧
    t (f % n) ≠ none ∧ reach n home t (f % n) < f - h ∧ CarriedOut n home t f (f + n)

/-- The reach of an occupied bucket is the distance of its entry. -/
lemma reach_of_some (he : t p = some e) : reach n home t p = dist n (home e.1) p := by
  unfold reach
  rw [he]

/-- Two positions less than one round apart are different buckets. -/
lemma mod_ne_of_lt (hij : i < j) (hjn : j < i + n) : j % n ≠ i % n := by
  intro heq
  have hmod : i ≡ j [MOD n] := heq.symm
  have hdvd := (Nat.modEq_iff_dvd' hij.le).mp hmod
  have hle := Nat.le_of_dvd (by omega) hdvd
  omega

/-- One round of the insertion moves the start of the carried run by one. -/
lemma carriedOut_succ {b m : ℕ} (hne : ∃ e, t (b % n) = some e ∧ ¬ home e.1 + n ≤ b + 1)
    (hocc : t ((b + 1) % n) ≠ none) (hreach : reach n home t (b % n) + 1 ≠ n) :
    CarriedOut n home t b m ↔ CarriedOut n home t (b + 1) m := by
  obtain ⟨e, he, hbound⟩ := hne
  constructor
  · rintro ⟨b', hb, hm, h₁, h₂, x, hx, hxb⟩
    have hlt : b < b' := by
      rcases hb.lt_or_eq with hlt | rfl
      · exact hlt
      · rw [he] at hx
        cases hx
        exact absurd hxb hbound
    exact ⟨b', hlt, hm, fun j hj hj' => h₁ j (by omega) hj', fun j hj hj' => h₂ j (by omega) hj',
      x, hx, hxb⟩
  · rintro ⟨b', hb, hm, h₁, h₂, hx⟩
    refine ⟨b', by omega, hm, fun j hj hj' => ?_, fun j hj hj' => ?_, hx⟩
    · rcases Nat.lt_or_ge (b + 1) j with hlt | hge
      · exact h₁ j hlt hj'
      · rw [show j = b + 1 by omega]
        exact hocc
    · rcases Nat.lt_or_ge b j with hlt | hge
      · exact h₂ j hlt hj'
      · rw [show j = b by omega]
        exact hreach

section put

variable [DecidableEq κ] {t₀ : ℕ → Option (κ × β)}

/-- An entry that displaces nothing any more comes round to the key that was placed. -/
lemma put_frozen {fuel m : ℕ} (hfuel : m - i < fuel) (him : i ≤ m) (hb : m < home c.1 + n)
    (hskip : ∀ j, i ≤ j → j < m → ∃ e, t (j % n) = some e ∧ e.1 ≠ k ∧
      dist n (home c.1) (j % n) ≤ dist n (home e.1) (j % n))
    (hk : t (m % n) = some (k, v)) : (put n home k v fuel i c t).1 = .updated := by
  induction fuel generalizing i with
  | zero => omega
  | succ fuel ih =>
      unfold put
      rw [if_neg (by omega)]
      rcases him.lt_or_eq with hlt | rfl
      · obtain ⟨e, he, hne, hle⟩ := hskip i le_rfl hlt
        rw [he]
        simp only [if_neg hne, if_neg (not_lt.mpr hle)]
        exact ih (by omega) hlt fun j hj => hskip j (by omega)
      · rw [hk]
        simp

/-- An entry that comes to its own home, in a full table, is carried round without displacing
another. -/
lemma put_frozen_of_reach {f b fuel : ℕ} {y : κ × β} (hs : Ok n home t₀) (hh : ∀ k, home k < n)
    (hfuel : f + n - b ≤ fuel) (hfb : f ≤ b) (hbm : b < f + n)
    (hagree : ∀ j, b < j → j < f + n → t (j % n) = t₀ (j % n))
    (hk : t (f % n) = some (k, v)) (hnew : ∀ j e, t₀ (j % n) = some e → e.1 ≠ k)
    (hy : t₀ (b % n) = some y) (hyc : home y.1 = home c.1) (hb : ¬ home c.1 + n ≤ b + 1)
    (hreach : reach n home t₀ (b % n) + 1 = n) :
    (put n home k v fuel (b + 1) c t).1 = .updated := by
  have hn : 0 < n := by have := hh k; omega
  have hdist : dist n (home c.1) (b % n) + 1 = n := by
    rw [← hyc, ← reach_of_some hy]
    exact hreach
  have hstep := dist_succ (hh c.1) b
  rw [if_pos hdist] at hstep
  have hpos := add_dist (hh c.1) (b + 1)
  rw [hstep, Nat.add_zero, Nat.mod_eq_of_lt (hh c.1)] at hpos
  have hhome : home c.1 = b + 1 := by
    rw [hpos]
    refine Nat.mod_eq_of_lt ?_
    by_contra hge
    have hle : (b + 1) % n + n ≤ b + 1 := by
      have hmod := Nat.mod_le (b + 1 - n) n
      rw [Nat.mod_eq_sub_mod (by omega)]
      omega
    omega
  refine put_frozen (m := f + n) (by omega) (by omega) (by omega) ?_ ?_
  · intro j hj hjm
    obtain ⟨e, he, hle⟩ := hs.path hh hy (j - (b + 1)) (by rw [← reach_of_some hy]; omega)
    rw [hyc, hhome, Nat.add_sub_cancel' hj] at he hle
    have hdj := dist_add (hh c.1) (show j - (b + 1) < n by omega)
    rw [hhome, Nat.add_sub_cancel' hj] at hdj
    refine ⟨e, by rw [hagree j (by omega) hjm]; exact he, hnew j e he, ?_⟩
    rw [hhome, hdj]
    exact hle
  · rw [Nat.add_mod_right]
    exact hk

/-- **Failure after a displacement.** The key was placed at index `f`, and the entry to be placed at
index `b + 1` has the home of the entry that bucket `b` had. -/
lemma put_full_iff_carriedOut {f b fuel : ℕ} (hs : Ok n home t₀) (hh : ∀ k, home k < n)
    (hfuel : f + n - b ≤ fuel) (hfb : f ≤ b) (hbm : b < f + n)
    (hagree : ∀ j, b < j → j < f + n → t (j % n) = t₀ (j % n))
    (hk : t (f % n) = some (k, v)) (hnew : ∀ j e, t₀ (j % n) = some e → e.1 ≠ k)
    (hprev : ∃ e, t₀ (b % n) = some e ∧ home e.1 = home c.1) :
    (put n home k v fuel (b + 1) c t).1 = .full ↔ CarriedOut n home t₀ b (f + n) := by
  induction fuel generalizing b c t with
  | zero => omega
  | succ fuel ih =>
      obtain ⟨y, hy, hyc⟩ := hprev
      have hn : 0 < n := by have := hh k; omega
      by_cases hfrozen : ¬ home c.1 + n ≤ b + 1 ∧ reach n home t₀ (b % n) + 1 = n
      · obtain ⟨hb, hreach⟩ := hfrozen
        have hupd := put_frozen_of_reach hs hh hfuel hfb hbm hagree hk hnew hy hyc hb hreach
        refine iff_of_false (by rw [hupd]; simp) ?_
        rintro ⟨b', hbb, -, -, hne, x, hx, hxb⟩
        rcases hbb.lt_or_eq with hbb | rfl
        · exact hne b le_rfl hbb hreach
        · rw [hy] at hx
          cases hx
          omega
      unfold put
      by_cases hb : home c.1 + n ≤ b + 1
      · rw [if_pos hb]
        refine iff_of_true rfl ⟨b, le_rfl, hbm, ?_, ?_, y, hy, by omega⟩
        · intro j hj hj'
          omega
        · intro j hj hj'
          omega
      rw [if_neg hb]
      have hreach : reach n home t₀ (b % n) + 1 ≠ n := fun hr => hfrozen ⟨hb, hr⟩
      rcases Nat.lt_or_ge (b + 1) (f + n) with hlt | hge
      swap
      · -- all buckets were passed: the key itself is met
        have hidx : (b + 1) % n = f % n := by
          rw [show b + 1 = f + n by omega, Nat.add_mod_right]
        rw [hidx, hk]
        simp only [if_true]
        refine iff_of_false (by simp) ?_
        rintro ⟨b', hbb, hbm', -, -, x, hx, hxb⟩
        obtain rfl : b' = b := by omega
        rw [hy] at hx
        cases hx
        omega
      rw [hagree (b + 1) (by omega) hlt]
      rcases he : t₀ ((b + 1) % n) with _ | e
      · refine iff_of_false (by simp) ?_
        rintro ⟨b', hbb, hbm', hocc, -, x, hx, hxb⟩
        rcases hbb.lt_or_eq with hbb | rfl
        · exact hocc (b + 1) (by omega) (by omega) he
        · rw [hy] at hx
          cases hx
          omega
      · simp only [if_neg (hnew _ e he)]
        have hstep := dist_succ (hh c.1) b
        have hyd : reach n home t₀ (b % n) = dist n (home c.1) (b % n) := by
          rw [reach_of_some hy, hyc]
        rw [if_neg (by rw [← hyd]; exact hreach)] at hstep
        rw [carriedOut_succ ⟨y, hy, by rw [hyc]; exact hb⟩ (by rw [he]; simp) hreach]
        by_cases hd : dist n (home e.1) ((b + 1) % n) < dist n (home c.1) ((b + 1) % n)
        · rw [if_pos hd]
          refine ih (by omega) (by omega) hlt ?_ ?_ ⟨e, he, rfl⟩
          · intro j hj hj'
            rw [Function.update_of_ne (mod_ne_of_lt hj (by omega))]
            exact hagree j (by omega) hj'
          · rw [Function.update_of_ne (mod_ne_of_lt (show f < b + 1 by omega) hlt).symm]
            exact hk
        · rw [if_neg hd]
          refine ih (by omega) (by omega) hlt (fun j hj => hagree j (by omega)) hk ⟨e, he, ?_⟩
          -- neither closer nor further than the entry to be placed: the same home
          have hne : dist n (home e.1) ((b + 1) % n) ≠ 0 := by omega
          obtain ⟨x, hx, hle⟩ := hs.sorted b e he hne
          rw [hy] at hx
          cases hx
          rw [hyc] at hle
          have heq : dist n (home e.1) ((b + 1) % n) = dist n (home c.1) ((b + 1) % n) := by omega
          exact home_unique (hh _) (hh _) (Nat.mod_lt _ hn) heq

/-- Every bucket is occupied, and at least as far from its home as a key with home `h` would be. -/
def Settled (n : ℕ) (home : κ → ℕ) (t : ℕ → Option (κ × β)) (h : ℕ) : Prop :=
  ∀ j, h ≤ j → j < h + n → t (j % n) ≠ none ∧ j - h ≤ reach n home t (j % n)

/-- In a settled table the insertion of a new key finds no place, and changes nothing. -/
lemma put_of_settled (fuel : ℕ) (hh : ∀ k, home k < n) (hnew : ∀ j e, t (j % n) = some e → e.1 ≠ k)
    (hset : Settled n home t (home k)) (hi : home k ≤ i) :
    put n home k v fuel i (k, v) t = (.full, t) := by
  induction fuel generalizing i with
  | zero => rfl
  | succ fuel ih =>
      unfold put
      by_cases hb : home k + n ≤ i
      · rw [if_pos hb]
      rw [if_neg hb]
      obtain ⟨hocc, hle⟩ := hset i hi (by omega)
      obtain ⟨e, he⟩ := Option.ne_none_iff_exists'.mp hocc
      rw [he]
      have hd := dist_add (hh k) (show i - home k < n by omega)
      rw [Nat.add_sub_cancel' hi] at hd
      rw [reach_of_some he] at hle
      simp only [if_neg (hnew i e he), hd, if_neg (not_lt.mpr hle)]
      exact ih (by omega)

/-- `put_full_iff`, for an insertion that has come as far as position `i`. -/
lemma put_full_iff_from {fuel : ℕ} (ht : Ok n home t) (hh : ∀ k, home k < n)
    (hnew : ∀ j e, t (j % n) = some e → e.1 ≠ k) (hfuel : home k + 2 * n - i ≤ fuel)
    (hi : home k ≤ i) (hin : i ≤ home k + n)
    (hpre : ∀ j, home k ≤ j → j < i → t (j % n) ≠ none ∧ j - home k ≤ reach n home t (j % n)) :
    (put n home k v fuel i (k, v) t).1 = .full ↔
      Settled n home t (home k) ∨ Overruns n home t (home k) := by
  have hn : 0 < n := by have := hh k; omega
  induction fuel generalizing i with
  | zero => omega
  | succ fuel ih =>
      unfold put
      rcases hin.lt_or_eq with hlt | rfl
      swap
      · rw [if_pos le_rfl]
        exact iff_of_true rfl (.inl hpre)
      rw [if_neg (by simp only; omega)]
      have hd := dist_add (hh k) (show i - home k < n by omega)
      rw [Nat.add_sub_cancel' hi] at hd
      rcases he : t (i % n) with _ | e
      · refine iff_of_false (by simp) ?_
        rintro (hset | ⟨f, hf, hfn, hfpre, hfocc, hfr, -⟩)
        · exact (hset i hi hlt).1 he
        · rcases lt_trichotomy f i with hfi | rfl | hfi
          · have hle := (hpre f hf hfi).2
            omega
          · exact hfocc he
          · exact (hfpre i hi hfi).1 he
      · simp only [if_neg (hnew i e he), hd]
        by_cases hdis : dist n (home e.1) (i % n) < i - home k
        · rw [if_pos hdis]
          have hagree : ∀ j, i < j → j < i + n →
              Function.update t (i % n) (some (k, v)) (j % n) = t (j % n) := fun j hj hj' =>
            Function.update_of_ne (mod_ne_of_lt hj hj') _ _
          rw [put_full_iff_carriedOut ht hh (by omega) le_rfl (by omega) hagree
            (Function.update_self ..) hnew ⟨e, he, rfl⟩]
          constructor
          · intro hout
            refine .inr ⟨i, hi, hlt, hpre, by rw [he]; simp, ?_, hout⟩
            rw [reach_of_some he]
            exact hdis
          · rintro (hset | ⟨f, hf, hfn, hfpre, hfocc, hfr, hout⟩)
            · have hle := (hset i hi hlt).2
              rw [reach_of_some he] at hle
              omega
            · rcases lt_trichotomy f i with hfi | rfl | hfi
              · have hle := (hpre f hf hfi).2
                omega
              · exact hout
              · have hle := (hfpre i hi hfi).2
                rw [reach_of_some he] at hle
                omega
        · rw [if_neg hdis]
          refine ih (by omega) (by omega) (by omega) ?_
          intro j hj hji
          rcases Nat.lt_or_ge j i with hlt' | hge
          · exact hpre j hj hlt'
          · obtain rfl : j = i := by omega
            rw [he, reach_of_some he]
            exact ⟨by simp, by omega⟩

/-- **An insertion of a new key fails** exactly in a settled table, or when an entry it displaced is
carried to the end of its own loop bound. -/
lemma put_full_iff {fuel : ℕ} (ht : Ok n home t) (hh : ∀ k, home k < n)
    (hnew : ∀ w, ¬ Mem n t (k, w)) (hfuel : 2 * n ≤ fuel) :
    (put n home k v fuel (home k) (k, v) t).1 = .full ↔
      Settled n home t (home k) ∨ Overruns n home t (home k) := by
  refine put_full_iff_from ht hh ?_ (by omega) le_rfl (by omega) ?_
  · intro j e he heq
    refine hnew e.2 ⟨j, ?_⟩
    rw [← heq]
    exact he
  · intro j hj hji
    omega

/-- An insertion goes on over buckets that are at least as far from their homes. -/
lemma put_skip {f fuel : ℕ} (hh : ∀ k, home k < n) (hnew : ∀ j e, t (j % n) = some e → e.1 ≠ k)
    (hi : home k ≤ i) (hif : i ≤ f) (hf : f < home k + n)
    (hpre : ∀ j, i ≤ j → j < f → t (j % n) ≠ none ∧ j - home k ≤ reach n home t (j % n)) :
    put n home k v (fuel + (f - i)) i (k, v) t = put n home k v fuel f (k, v) t := by
  generalize hm : f - i = m
  induction m generalizing i with
  | zero => rw [Nat.add_zero, show i = f by omega]
  | succ m ih =>
      obtain ⟨hocc, hle⟩ := hpre i le_rfl (by omega)
      obtain ⟨e, he⟩ := Option.ne_none_iff_exists'.mp hocc
      have hd := dist_add (hh k) (show i - home k < n by omega)
      rw [Nat.add_sub_cancel' hi] at hd
      rw [reach_of_some he] at hle
      rw [← Nat.add_assoc, put, if_neg (by simp only; omega), he]
      simp only [if_neg (hnew i e he), hd, if_neg (not_lt.mpr hle)]
      exact ih (by omega) (by omega) (fun j hj => hpre j (by omega)) (by omega)

/-- An insertion that displaces an entry leaves the new key in the table, also when it fails. -/
lemma mem_put_of_overruns {fuel : ℕ} (ht : Ok n home t) (hh : ∀ k, home k < n)
    (hnew : ∀ w, ¬ Mem n t (k, w)) (hover : Overruns n home t (home k)) (hfuel : n ≤ fuel) :
    Mem n (put n home k v fuel (home k) (k, v) t).2 (k, v) := by
  have hkey : ∀ x, Mem n t x → x.1 ≠ k := by
    intro x hx heq
    refine hnew x.2 ?_
    rw [← heq]
    exact hx
  obtain ⟨f, hf, hfn, hpre, hocc, hlt, -⟩ := hover
  obtain ⟨e, he⟩ := Option.ne_none_iff_exists'.mp hocc
  rw [reach_of_some he] at hlt
  obtain ⟨fuel, rfl⟩ : ∃ m, fuel = m + 1 + (f - home k) := ⟨fuel - 1 - (f - home k), by omega⟩
  have hd := dist_add (hh k) (show f - home k < n by omega)
  rw [Nat.add_sub_cancel' hf] at hd
  rw [put_skip hh (fun j x hx => hkey x ⟨j, hx⟩) le_rfl hf hfn hpre, put,
    if_neg (by simp only; omega), he]
  simp only [if_neg (hkey e ⟨f, he⟩), hd, if_pos hlt]
  -- from here on the key is in the table, and the entry to be placed has another key
  have hn : 0 < n := by have := hh k; omega
  have hmem := mem_place (c := (k, v)) ht.unique he hkey
  have hfit : Fits n home t (f % n) (k, v) := by
    rcases hf.lt_or_eq with hlt' | rfl
    · obtain ⟨f', rfl⟩ : ∃ f', f = f' + 1 := ⟨f - 1, by omega⟩
      obtain ⟨hocc', hle'⟩ := hpre f' (by omega) (by omega)
      obtain ⟨y, hy⟩ := Option.ne_none_iff_exists'.mp hocc'
      have hd' := dist_add (hh k) (show f' - home k < n by omega)
      rw [Nat.add_sub_cancel' (by omega)] at hd'
      rw [reach_of_some hy] at hle'
      exact fits_skip hh hy (by simp only; omega)
    · exact fits_home hh t (k, v)
  have hs' := ht.sorted.place hn hfit fun x hx => by
    rw [he] at hx
    cases hx
    simp only [hd]
    omega
  have hu' : Unique n (Function.update t (f % n) (some (k, v))) :=
    Unique.place ht.unique hkey
  have hc' : ∀ x, Mem n (Function.update t (f % n) (some (k, v))) x → x.1 ≠ e.1 := by
    intro x hx
    rcases (hmem x).mp hx with ⟨⟨j, hj⟩, hne⟩ | rfl
    · intro heq
      have hji := ht.unique j f x e hj he heq
      rw [hji, he] at hj
      exact hne (Option.some.inj hj).symm
    · exact fun heq => hkey e ⟨f, he⟩ heq.symm
  have hkv : Mem n (Function.update t (f % n) (some (k, v))) (k, v) := (hmem _).mpr (.inr rfl)
  obtain ⟨-, x, hres⟩ := put_carries fuel hh hs' hu'
    (fits_displaced hh (by simp only [hd]; omega)) hc' (.inr ⟨hkv, hkey e ⟨f, he⟩⟩)
  rcases hres with ⟨-, hall⟩ | ⟨-, -, hx, -, hall⟩
  · exact (hall _).mpr (.inl hkv)
  · refine (hall _).mpr ⟨.inl hkv, ?_⟩
    rintro rfl
    exact hx (hkey e ⟨f, he⟩) rfl

end put

/-- An insertion fills a bucket exactly if it adds an entry. -/
lemma put_occupied [DecidableEq κ] (hn : 0 < n) (home : κ → ℕ) (k : κ) (v : β) (fuel i : ℕ) (c : κ × β)
    (t : ℕ → Option (κ × β)) :
    (put n home k v fuel i c t).1 = .added ∧
        occupied n (put n home k v fuel i c t).2 = occupied n t + 1 ∨
      (put n home k v fuel i c t).1 ≠ .added ∧
        occupied n (put n home k v fuel i c t).2 = occupied n t := by
  induction fuel generalizing i c t with
  | zero => exact .inr ⟨by simp [put], rfl⟩
  | succ fuel ih =>
      unfold put
      by_cases hend : home c.1 + n ≤ i
      · rw [if_pos hend]
        exact .inr ⟨by simp, rfl⟩
      rw [if_neg hend]
      rcases he : t (i % n) with _ | e
      · exact .inl ⟨rfl, occupied_update_of_none (Nat.mod_lt i hn) he c⟩
      have hsome : (t (i % n)).isSome = true := by
        rw [he]
        rfl
      simp only
      by_cases hk : e.1 = k
      · rw [if_pos hk]
        exact .inr ⟨by simp, occupied_update_of_some hsome (k, v)⟩
      rw [if_neg hk]
      by_cases hd : dist n (home e.1) (i % n) < dist n (home c.1) (i % n)
      · rw [if_pos hd]
        have hrun := ih (i + 1) e (Function.update t (i % n) (some c))
        rwa [occupied_update_of_some hsome] at hrun
      · rw [if_neg hd]
        exact ih ..

/-! ### Filling a table -/

/-- Insert the entries one after the other; `false` once an insertion finds no place. -/
def fills (n : ℕ) (home : κ → ℕ) [DecidableEq κ] :
    List (κ × β) → (ℕ → Option (κ × β)) → Bool
  | [], _ => true
  | e :: es, t =>
      match put n home e.1 e.2 (2 * n) (home e.1) e t with
      | (.full, _) => false
      | (_, t') => fills n home es t'

section map

variable {γ : Type*} {t' : ℕ → Option (κ × γ)} (f : β → γ)

/-- The buckets of `t'` are those of `t`, with the values changed by `f`. -/
def MapOf (n : ℕ) (f : β → γ) (t : ℕ → Option (κ × β)) (t' : ℕ → Option (κ × γ)) : Prop :=
  ∀ i, t' (i % n) = (t (i % n)).map (Prod.map id f)

/-- The image of a table follows one update. -/
lemma MapOf.update {f : β → γ} (h : MapOf n f t t') (p : ℕ) (c : κ × β) :
    MapOf n f (Function.update t p (some c)) (Function.update t' p (some (c.1, f c.2))) := by
  intro i
  by_cases hi : i % n = p
  · rw [hi, Function.update_self, Function.update_self]
    rfl
  · rw [Function.update_of_ne hi, Function.update_of_ne hi]
    exact h i

/-- An insertion goes by the keys alone. -/
lemma put_map [DecidableEq κ] (home : κ → ℕ) (k : κ) (v : β) (fuel i : ℕ) (h : MapOf n f t t')
    (c : κ × β) :
    (put n home k (f v) fuel i (c.1, f c.2) t').1 = (put n home k v fuel i c t).1 ∧
      MapOf n f (put n home k v fuel i c t).2 (put n home k (f v) fuel i (c.1, f c.2) t').2 := by
  induction fuel generalizing i c t t' with
  | zero => exact ⟨rfl, h⟩
  | succ fuel ih =>
      unfold put
      by_cases hend : home c.1 + n ≤ i
      · rw [if_pos hend, if_pos hend]
        exact ⟨rfl, h⟩
      rw [if_neg hend, if_neg hend, h i]
      rcases t (i % n) with _ | e
      · exact ⟨rfl, h.update (i % n) c⟩
      simp only [Option.map_some, Prod.map_fst, id]
      by_cases hk : e.1 = k
      · rw [if_pos hk, if_pos hk]
        exact ⟨rfl, h.update (i % n) (k, v)⟩
      rw [if_neg hk, if_neg hk]
      split_ifs
      · exact ih _ (h.update (i % n) c) e
      · exact ih _ h c

/-- So does filling a table. -/
lemma fills_map [DecidableEq κ] (h : MapOf n f t t') (es : List (κ × β)) :
    fills n home (es.map (Prod.map id f)) t' = fills n home es t := by
  induction es generalizing t t' with
  | nil => rfl
  | cons e es ih =>
      obtain ⟨k, v⟩ := e
      obtain ⟨hcode, htable⟩ := put_map f home k v (2 * n) (home k) h (k, v)
      simp only [List.map_cons, Prod.map_apply, id]
      unfold fills
      simp only
      generalize put n home k (f v) (2 * n) (home k) (k, f v) t' = r' at hcode htable ⊢
      generalize put n home k v (2 * n) (home k) (k, v) t = r at hcode htable ⊢
      obtain ⟨o, t₁⟩ := r
      obtain ⟨o', t₁'⟩ := r'
      simp only at hcode htable
      subst hcode
      cases o' with
      | full => rfl
      | added => exact ih htable
      | updated => exact ih htable

end map

end Endfields.Lib.RobinHood
