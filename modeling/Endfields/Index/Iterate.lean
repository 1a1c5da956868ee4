import Endfields.Index.Map
import Endfields.Model.Visit

/-!
# What a walk over the index shows

`ef_index_iterate` on the handles that calls on the index lead to. The callback is called with a key
hash and a slot offset, and its answer may depend on what it was shown before.

* `Db.showAll`: a callback is shown a list of entries, up to its first answer other than `0`.
* `efIndexIterate_eq`: a walk shows the live entries of the table, in table order.
* `ShowsMap`: a list of entries holds the map from key hashes to slots, each key hash once.
* **`efIndexIterate_shows`**: a walk shows every key hash that a lookup finds exactly once, with the
  offset of the slot that the lookup finds, and nothing else; an answer other than `0` ends it right
  there.
-/

namespace Endfields.Model

open Endfields.Lib

namespace Db

/-- What a callback answers when it is shown the entries of a list, after those of `shown`. -/
def showAll (cb : List HashEntry → ℕ → ℕ → ℤ) (shown : List HashEntry) :
    List HashEntry → Err × List HashEntry
  | [] => (.ok, shown)
  | e :: es =>
      if cb shown e.keyHash e.slotOffset = 1 then (.ok, shown ++ [e])
      else if cb shown e.keyHash e.slotOffset ≠ 0 then (.userAbort, shown ++ [e])
      else showAll cb (shown ++ [e]) es

/-- The callback answers `0` to every entry of a list that follows those of `shown`. -/
def AnswersZero (cb : List HashEntry → ℕ → ℕ → ℤ) (shown es : List HashEntry) : Prop :=
  ∀ pre e post, es = pre ++ e :: post → cb (shown ++ pre) e.keyHash e.slotOffset = 0

variable {g : Geometry} {db : Db} {cb : List HashEntry → ℕ → ℕ → ℤ} {k : ℕ}

/-- The occupied buckets among the `n` from `i` on, in table order. -/
def entriesFrom (db : Db) (i n : ℕ) : List HashEntry :=
  ((List.range' i n).map db.entry).filter fun e => !e.empty

lemma entriesFrom_succ (db : Db) (i n : ℕ) :
    db.entriesFrom i (n + 1) =
      if (db.entry i).empty then db.entriesFrom (i + 1) n
      else db.entry i :: db.entriesFrom (i + 1) n := by
  unfold entriesFrom
  rw [List.range'_succ, List.map_cons, List.filter_cons]
  cases (db.entry i).empty <;> rfl

/-- The loop shows the occupied buckets, in order. -/
lemma indexIterateLoop_eq (db : Db) (cb : List HashEntry → ℕ → ℕ → ℤ) (n i : ℕ)
    (shown : List HashEntry) :
    db.indexIterateLoop cb n i shown = showAll cb shown (db.entriesFrom i n) := by
  induction n generalizing i shown with
  | zero => rfl
  | succ n ih =>
      unfold indexIterateLoop
      rw [entriesFrom_succ]
      dsimp only
      split_ifs with hempty h1 h0
      · exact ih (i + 1) shown
      · unfold showAll
        rw [if_pos h1]
      · unfold showAll
        rw [if_neg h1, if_pos h0]
      · unfold showAll
        rw [if_neg h1, if_neg h0]
        exact ih (i + 1) _

/-- A walk shows the live entries of the table, in table order. -/
lemma efIndexIterate_eq (hpos : 0 < db.hashCapacity) (cb : List HashEntry → ℕ → ℕ → ℤ) :
    db.efIndexIterate cb = showAll cb [] (db.liveEntries db.hashCapacity) := by
  unfold efIndexIterate
  rw [if_neg hpos.ne', indexIterateLoop_eq]
  unfold entriesFrom liveEntries
  rw [List.range_eq_range']

/-- The first entry and the rest of a list. -/
lemma answersZero_cons {shown es : List HashEntry} {e : HashEntry} :
    AnswersZero cb shown (e :: es) ↔
      cb shown e.keyHash e.slotOffset = 0 ∧ AnswersZero cb (shown ++ [e]) es := by
  refine ⟨fun h => ⟨?_, fun pre x post heq => ?_⟩, fun h pre x post heq => ?_⟩
  · have hfirst := h [] e es rfl
    rwa [List.append_nil] at hfirst
  · have hrest := h (e :: pre) x post (by rw [heq]; rfl)
    rwa [List.append_cons] at hrest
  · rcases pre with _ | ⟨y, pre⟩
    · obtain ⟨rfl, -⟩ := List.cons.inj heq
      rw [List.append_nil]
      exact h.1
    · obtain ⟨rfl, hes⟩ := List.cons.inj heq
      rw [List.append_cons]
      exact h.2 pre x post hes

/-- After the answer `0`, the walk goes on. -/
lemma showAll_zero {shown es : List HashEntry} {e : HashEntry}
    (h : cb shown e.keyHash e.slotOffset = 0) :
    showAll cb shown (e :: es) = showAll cb (shown ++ [e]) es :=
  (if_neg (by rw [h]; norm_num)).trans (if_neg (by rw [h]; norm_num))

/-- A part of the list that the callback answers `0` to is passed over. -/
lemma showAll_append {shown pre : List HashEntry} (h : AnswersZero cb shown pre) (es : List HashEntry) :
    showAll cb shown (pre ++ es) = showAll cb (shown ++ pre) es := by
  induction pre generalizing shown with
  | nil => rw [List.nil_append, List.append_nil]
  | cons e pre ih =>
      obtain ⟨h0, hrest⟩ := answersZero_cons.mp h
      rw [List.cons_append, showAll_zero h0, ih hrest, List.append_assoc, List.singleton_append]

/-- A callback that answers `0` to all entries is shown all of them. -/
lemma showAll_of_zero {es : List HashEntry} (h : AnswersZero cb [] es) : showAll cb [] es =
    (.ok, es) := by
  have happ := showAll_append h []
  rwa [List.append_nil] at happ

/-- Another answer ends the walk. -/
lemma showAll_of_ne {pre post : List HashEntry} {e : HashEntry} (hpre : AnswersZero cb [] pre)
    (hne : cb pre e.keyHash e.slotOffset ≠ 0) :
    showAll cb [] (pre ++ e :: post) =
      (if cb pre e.keyHash e.slotOffset = 1 then .ok else .userAbort, pre ++ [e]) := by
  rw [showAll_append hpre, List.nil_append]
  unfold showAll
  by_cases h1 : cb pre e.keyHash e.slotOffset = 1
  · rw [if_pos h1, if_pos h1]
  · rw [if_neg h1, if_neg h1, if_pos hne]

/-! ### The map -/

/-- A list of entries holds the map from key hashes to slots, each key hash once. -/
structure ShowsMap (db : Db) (es : List HashEntry) : Prop where
  once : (es.map HashEntry.keyHash).Nodup
  complete : ∀ k slotId, db.resolve k = .ok slotId ↔
    slotId < db.sb.maxSlots ∧ ∃ e ∈ es, e.keyHash = k ∧ e.slotOffset = db.efSlotToOffset slotId
  found : ∀ e ∈ es, ∃ slotId, db.resolve e.keyHash = .ok slotId

/-- The live entries of a handle in order are the map. -/
lemma IndexInv.showsMap (h : IndexInv g db) (hpos : 0 < db.hashCapacity) :
    ShowsMap db (db.liveEntries db.hashCapacity) := by
  have hread := (h.indexed hpos).readable
  have hn : db.sb.maxSlots = g.n := h.bound.maxSlots
  refine ⟨nodup_liveEntries hread, fun k slotId => ⟨fun hr => ?_, ?_⟩, fun e he => ?_⟩
  · obtain ⟨hi, hm⟩ := maps_of_resolve h.bound hpos hread hr
    refine ⟨by omega, ⟨k, g.ptr slotId⟩, (mem_liveEntries hpos _).mpr hm, rfl, ?_⟩
    exact (efSlotToOffset_of_lt h.bound hi).symm
  · rintro ⟨hi, e, he, rfl, hoff⟩
    have hm := (mem_liveEntries hpos e).mp he
    rw [hoff, efSlotToOffset_of_lt h.bound (by omega)] at hm
    exact resolve_eq_ok h.bound hpos hread (by omega) hm
  · have hm := (mem_liveEntries hpos e).mp he
    obtain ⟨i, hi, hoff⟩ := h.entries hpos _ _ hm
    rw [hoff] at hm
    exact ⟨i, resolve_eq_ok h.bound hpos hread hi hm⟩

/-- **A walk over the index shows the map.** On every handle that calls on the index lead to from a
new database, the live entries of the table, in table order, hold every key hash that a lookup finds
exactly once, with the offset of the slot that the lookup finds, and no other key hash. A callback
that always answers `0` is shown all of them, and the walk returns `EF_OK`; otherwise it is shown
those up to the first other answer, and the walk returns `EF_OK` if that is `1` and
`EF_ERR_USER_ABORT` if not.
Source: `ef_index.c`, `ef_index_iterate` and `ef_index_iterate_impl` -/
theorem efIndexIterate_shows (hrun : IndexRun db) (hpos : 0 < db.hashCapacity) :
    ShowsMap db (db.liveEntries db.hashCapacity) ∧ ∀ cb : List HashEntry → ℕ → ℕ → ℤ,
      (AnswersZero cb [] (db.liveEntries db.hashCapacity) →
        db.efIndexIterate cb = (.ok, db.liveEntries db.hashCapacity)) ∧
      ∀ pre e post, db.liveEntries db.hashCapacity = pre ++ e :: post → AnswersZero cb [] pre →
        cb pre e.keyHash e.slotOffset ≠ 0 → db.efIndexIterate cb =
          (if cb pre e.keyHash e.slotOffset = 1 then .ok else .userAbort, pre ++ [e]) := by
  obtain ⟨g, hinv⟩ := hrun.inv
  refine ⟨hinv.showsMap hpos, fun cb => ?_⟩
  rw [efIndexIterate_eq hpos]
  refine ⟨showAll_of_zero, fun pre e post heq hpre hne => ?_⟩
  rw [heq]
  exact showAll_of_ne hpre hne

/-- The walk over three keys, one of which was displaced: a callback that stops at the second entry
is shown the first two. -/
theorem efIndexIterate_shows_three :
    (threeKeys.efIndexIterate (fun shown _ _ => if shown = [] then 0 else 1) =
        (.ok, (threeKeys.liveEntries threeKeys.hashCapacity).take 2) ∧
      (threeKeys.liveEntries threeKeys.hashCapacity).map HashEntry.slotOffset = [256, 192, 128]) ∧
    ShowsMap threeKeys (threeKeys.liveEntries threeKeys.hashCapacity) ∧
      ∀ cb : List HashEntry → ℕ → ℕ → ℤ,
        (AnswersZero cb [] (threeKeys.liveEntries threeKeys.hashCapacity) →
          threeKeys.efIndexIterate cb = (.ok, threeKeys.liveEntries threeKeys.hashCapacity)) ∧
        ∀ pre e post, threeKeys.liveEntries threeKeys.hashCapacity = pre ++ e :: post →
          AnswersZero cb [] pre → cb pre e.keyHash e.slotOffset ≠ 0 → threeKeys.efIndexIterate cb =
            (if cb pre e.keyHash e.slotOffset = 1 then .ok else .userAbort, pre ++ [e]) :=
  ⟨by decide +kernel, efIndexIterate_shows (indexRun_fourBuckets.callAll _) (by decide +kernel)⟩

end Db

end Endfields.Model
